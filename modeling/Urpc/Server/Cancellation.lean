/-
  Cancellation callbacks mean cancellation.

  In every run the callbacks run at most once, in the order of their registration, and a callback
  that `OnCancel` took can still run. But `OnStreamClose` calls `FireCancel` whatever closed the
  stream: a call that was answered, and whose stream then closed normally, runs its callbacks too
  (`answered_call_cancelled`). They run for a cancellation only, if none waits when a stream whose
  call was answered closes, and none is registered after the answer.

  Proved: `cancel_means_cancellation`.
-/
import Urpc.Server.Cancel
import Urpc.Server.Grammar

namespace Urpc.Server

namespace Life

/-! ## Runs -/

/-- The frame of `OnStreamClose` that has its turn next. -/
def next (fs : List Frame) : Option Frame := fs.find? Frame.closes

theorem next_append {gs : List Frame} (h : ∀ g ∈ gs, g.closes = false) (fs : List Frame) :
    next (gs ++ fs) = next fs := by
  have hnone : gs.find? Frame.closes = none :=
    List.find?_eq_none.mpr fun g hg => by simp [h g hg]
  rw [next, List.find?_append, hnone, Option.none_or]
  rfl

/-- What every run keeps: the callbacks that ran, then those that wait, are those registered. -/
structure Standing (c : Conf) : Prop where
  order : ranOf c.st.st.log ++ waiting c.st.st = c.st.registered
  spent : ∀ cbs, cancelSide c.st.st = some (true, cbs) → cbs = []
  opened : cancelSide c.st.st ≠ none → c.st.st.opened = true
  guarded : ∀ cbs, cancelSide c.st.st = some (false, cbs) → next c.frames ≠ some .closeErase
  coming : ∀ cbs, cancelSide c.st.st = some (false, cbs) → c.st.st.h2.closed = true →
    next c.frames = some .fireCancel
  bottom : ∀ f ∈ c.frames.dropLast, f.brief = true ∨ f.closes = true

section Runs

variable {cfg : Config} {c d : Conf} {l : Label}

/-- A step that leaves the callbacks alone, and changes the frames that do not close. -/
theorem Standing.leave (h : Standing c) (hl : Leaves c.st.st d.st.st) (hkept : Kept c.st d.st)
    (hnext : next d.frames = next c.frames)
    (hbottom : ∀ f ∈ d.frames.dropLast, f.brief = true ∨ f.closes = true) : Standing d where
  order := by rw [hl.ran, hl.waits, hkept.1, h.order]
  spent cbs hs := h.spent cbs (hl.side.symm.trans hs)
  opened hs := hl.opened (h.opened (hl.side ▸ hs))
  guarded cbs hs := hnext ▸ h.guarded cbs (hl.side.symm.trans hs)
  coming cbs hs hc := hnext ▸ h.coming cbs (hl.side.symm.trans hs) (hl.closed ▸ hc)
  bottom := hbottom

/-- A step in which `FireCancel` runs. -/
theorem Standing.fire (h : Standing c) (hf : FiresCancel c.st.st d.st.st)
    (hreg : d.st.registered = c.st.registered)
    (hbottom : ∀ f ∈ d.frames.dropLast, f.brief = true ∨ f.closes = true) : Standing d := by
  cases hs : cancelSide c.st.st with
  | none =>
      have hs' : cancelSide d.st.st = none := by rw [hf.side, hs]; rfl
      refine ⟨?_, ?_, ?_, ?_, ?_, hbottom⟩
      · rw [hf.ran, hreg, ← h.order]
        simp [waiting, due, hs, hs']
      all_goals simp [hs']
  | some p =>
      obtain ⟨fired, cbs⟩ := p
      have hs' : cancelSide d.st.st = some (true, []) := by
        rw [hf.side, hs]
        cases fired with
        | true => simp [h.spent cbs hs]
        | false => rfl
      refine ⟨?_, ?_, ?_, ?_, ?_, hbottom⟩
      · rw [hf.ran, hreg, ← h.order]
        cases fired with
        | true => simp [waiting, due, hs, hs', h.spent cbs hs]
        | false => simp [waiting, due, hs, hs']
      · simp [hs']
      · exact fun _ => hf.opened (h.opened (by simp [hs]))
      all_goals simp [hs']

theorem dropLast_lone {gs : List Frame} (h : gs.length ≤ 1) : gs.dropLast = [] := by
  rw [← List.length_eq_zero_iff, List.length_dropLast]
  omega

/-- Brief frames on top of the stack. -/
theorem bottom_append {gs fs : List Frame} (hgs : ∀ g ∈ gs, g.brief = true ∨ g.closes = true)
    (hfs : ∀ f ∈ fs.dropLast, f.brief = true ∨ f.closes = true) :
    ∀ f ∈ (gs ++ fs).dropLast, f.brief = true ∨ f.closes = true := by
  intro f hf
  by_cases hnil : fs = []
  · rw [hnil, List.append_nil] at hf
    exact hgs f (List.dropLast_subset _ hf)
  · rw [List.dropLast_append_of_ne_nil hnil] at hf
    exact (List.mem_append.mp hf).elim (hgs f) (hfs f)

theorem bottom_tail {f : Frame} {fs : List Frame}
    (h : ∀ g ∈ (f :: fs).dropLast, g.brief = true ∨ g.closes = true) :
    ∀ g ∈ fs.dropLast, g.brief = true ∨ g.closes = true := by
  intro g hg
  have hne : fs ≠ [] := by
    rintro rfl
    cases hg
  rw [List.dropLast_cons_of_ne_nil hne] at h
  exact h g (List.mem_cons_of_mem _ hg)

theorem standing_turn (h : Standing c) (ht : Turn c d l) : Standing d := by
  cases ht with
  | @resumed f fs gs hc hd hclose hgs hl hkept =>
      have hbottom := h.bottom
      rw [hc] at hbottom
      have hnextc : next c.frames = next fs := by
        have hone : ∀ g ∈ [f], g.closes = false := by simpa using hclose
        rw [hc]
        exact next_append hone fs
      rcases hgs with ⟨hb, hgs⟩ | ⟨hb, hlone⟩
      · refine h.leave hl hkept ?_ ?_
        · rw [hd, hnextc, next_append fun g hg => Frame.brief_closes (hgs g hg)]
        · rw [hd]
          exact bottom_append (fun g hg => .inl (hgs g hg)) (bottom_tail hbottom)
      · -- a frame that is not brief is the last one
        have hnil : fs = [] := by
          by_contra hne
          rw [List.dropLast_cons_of_ne_nil hne] at hbottom
          rcases hbottom f List.mem_cons_self with hf | hf
          · rw [hb] at hf
            cases hf
          · rw [hclose] at hf
            cases hf
        refine h.leave hl hkept ?_ ?_
        · rw [hd, hnextc, next_append hlone.2]
        · rw [hd, hnil, List.append_nil, dropLast_lone hlone.1]
          nofun
  | @fired fs hc hd hf hkept =>
      have hbottom := h.bottom
      rw [hc] at hbottom
      exact h.fire hf hkept.1 (hd ▸ bottom_tail hbottom)
  | @erased fs hc hd hs hran hover hkept =>
      have hbottom := h.bottom
      have hguarded := h.guarded
      rw [hc] at hbottom hguarded
      -- `FireCancel` has run, or there is no call
      have hwait : waiting c.st.st = [] := by
        cases hside : cancelSide c.st.st with
        | none => simp [waiting, hside]
        | some p =>
            obtain ⟨fired, cbs⟩ := p
            cases fired with
            | true => simp [waiting, hside, h.spent cbs hside]
            | false => exact absurd rfl (hguarded cbs hside)
      refine ⟨?_, ?_, ?_, ?_, ?_, hd ▸ bottom_tail hbottom⟩
      · rw [hran, hkept.1, ← h.order, hwait]
        simp [waiting, hs]
      all_goals simp [hs]
  | quiet hd hgs hl hkept =>
      rcases hgs with hgs | ⟨hnil, hlone⟩
      · refine h.leave hl hkept ?_ ?_
        · rw [hd, next_append fun g hg => Frame.brief_closes (hgs g hg)]
        · rw [hd]
          exact bottom_append (fun g hg => .inl (hgs g hg)) h.bottom
      · refine h.leave hl hkept ?_ ?_
        · rw [hd, next_append hlone.2]
        · rw [hd, hnil, List.append_nil, dropLast_lone hlone.1]
          nofun
  | created hc hlone hs hs' hran hclosed hopened hover hkept =>
      have hnext : next d.frames = none := by
        rw [← List.append_nil d.frames, next_append hlone.2]
        rfl
      refine ⟨?_, ?_, fun _ => hopened, ?_, ?_, ?_⟩
      · rw [hran, hkept.1, ← h.order]
        simp [waiting, hs, hs']
      · simp [hs']
      · simp [hnext]
      · simp [hclosed]
      · rw [dropLast_lone hlone.1]
        nofun
  | @taken cb cbs hd hs hs' hran hh2 hopened hreg hcause =>
      refine ⟨?_, ?_, fun _ => ?_, ?_, ?_, hd ▸ h.bottom⟩
      · rw [hran, hreg, ← h.order, List.append_assoc]
        simp [waiting, hs, hs']
      · simp [hs']
      · rw [hopened]
        exact h.opened (by simp [hs])
      · exact fun _ _ => hd ▸ h.guarded cbs hs
      · exact fun _ _ hc => hd ▸ h.coming cbs hs (hh2 ▸ hc)
  | @ended e gs he hd hgs hs hran hopened hover hreg hcause =>
      have horder : ranOf d.st.st.log ++ waiting d.st.st = d.st.registered := by
        rw [hran, hreg, ← h.order]
        simp [waiting, hs]
      have hspent : ∀ cbs, cancelSide d.st.st = some (true, cbs) → cbs = [] := hs ▸ h.spent
      have hopened' : cancelSide d.st.st ≠ none → d.st.st.opened = true :=
        fun hne => hopened (h.opened (hs ▸ hne))
      rcases hgs with ⟨rfl, hnone⟩ | ⟨hfind, hgs⟩
      · refine ⟨horder, hspent, hopened', ?_, ?_, hd ▸ h.bottom⟩ <;> simp [hs, hnone]
      · have hnext : next d.frames = some .fireCancel := by
          rw [hd, next, List.find?_append, hfind]
          rfl
        refine ⟨horder, hspent, hopened', ?_, fun _ _ _ => hnext, ?_⟩
        · simp [hnext]
        · rw [hd]
          exact bottom_append hgs h.bottom
  | cancelled he hc hd hno hf hreg hcause =>
      refine h.fire hf hreg ?_
      rw [dropLast_lone hd]
      nofun

/-- Any step. -/
def any (_ : Conf) (_ : Label) : Prop := True

instance (c : Conf) (l : Label) : Decidable (any c l) := .isTrue trivial

theorem standing_fresh : Standing { st := {} } where
  order := rfl
  spent := nofun
  opened h := absurd rfl h
  guarded := nofun
  coming := nofun
  bottom := nofun

theorem standing_reach {ok : Conf → Label → Prop} (h : (machine cfg).Reach ok { st := {} } c) :
    Standing c :=
  h.inv standing_fresh fun _ _ _ hc _ hs => standing_turn hc (turn_step hs)

/-- `FireCancel` gets its turn, and runs the callbacks. -/
theorem fireCancel_comes (cfg : Config) {n : Nat} {pre post : List Frame} {cbs : List CbId}
    (hframes : c.frames = pre ++ .fireCancel :: post) (hpre : ∀ f ∈ pre, f.brief = true)
    (hn : (pre.map Frame.cost).sum + backlog c.st.st ≤ n)
    (hside : cancelSide c.st.st = some (false, cbs)) :
    ∃ e, (machine cfg).Reach any c e ∧ ranOf e.st.st.log = ranOf c.st.st.log ++ cbs := by
  induction n using Nat.strongRecOn generalizing c pre with
  | ind n ih =>
      cases pre with
      | nil =>
          have hs : (machine cfg).step c .resume =
              some ⟨(exec .fireCancel c.st).1, [] ++ post⟩ := by
            rw [Resume.System.step, hframes]
            rfl
          refine ⟨_, .tail .refl trivial hs, ?_⟩
          have hran := (fires_fireCancel (s := c.st.st)).ran
          rw [due, hside] at hran
          exact hran
      | cons f pre =>
          have hs : (machine cfg).step c .resume =
              some ⟨(exec f c.st).1, (exec f c.st).2 ++ (pre ++ .fireCancel :: post)⟩ := by
            rw [Resume.System.step, hframes]
            rfl
          -- one frame less, or one message less in the queue
          obtain ⟨hleaves, hbrief, hless⟩ := exec_brief (hpre f List.mem_cons_self) c.st.st
          have hlt : (((exec f c.st).2 ++ pre).map Frame.cost).sum +
              backlog (exec f c.st).1.st < n := by
            rw [List.map_cons, List.sum_cons] at hn
            rw [List.map_append, List.sum_append]
            simp only [exec]
            omega
          have hpre' : ∀ g ∈ (exec f c.st).2 ++ pre, g.brief = true := by
            intro g hg
            rcases List.mem_append.mp hg with hg | hg
            · exact hbrief g hg
            · exact hpre g (List.mem_cons_of_mem _ hg)
          obtain ⟨e, he, hran⟩ := ih _ hlt
            (c := ⟨(exec f c.st).1, (exec f c.st).2 ++ (pre ++ .fireCancel :: post)⟩)
            (List.append_assoc ..).symm hpre' (Nat.le_refl _) (hleaves.side.trans hside)
          exact ⟨e, .trans (.tail .refl trivial hs) he, hran.trans (by rw [← hleaves.ran]; rfl)⟩

/-- The step of an event that can happen at any time. -/
theorem step_conn {e : Event} {s' : State} {gs : List Frame} (ha : Server.anytime e = true)
    (h : Server.fire cfg e c.st.st = some (s', gs)) :
    ∃ d, (machine cfg).step c (.event (.conn e)) = some d ∧ d.st.st = s' ∧
      d.frames = gs ++ c.frames := by
  refine ⟨⟨{ c.st with
    st := s'
    registered := c.st.registered ++ registers c.st.st e
    cause := c.st.cause || e.cancels && !terminated c.st.st }, gs ++ c.frames⟩, ?_, rfl, rfl⟩
  simp [Resume.System.step, Resume.System.enabled, machine, Life.anytime, Life.fire, ha, h]

/-- As long as `FireCancel` has not run, the callbacks that wait can still run: the stream may
    close now, or has closed and `FireCancel` waits for its turn. -/
theorem Standing.can_run (h : Standing c) (cfg : Config) {cbs : List CbId}
    (hside : cancelSide c.st.st = some (false, cbs)) :
    ∃ e, (machine cfg).Reach any c e ∧ ranOf e.st.st.log = c.st.registered := by
  have horder : ranOf c.st.st.log ++ cbs = c.st.registered := by
    simpa [waiting, hside] using h.order
  rw [← horder]
  by_cases hclosed : c.st.st.h2.closed = true
  · obtain ⟨-, pre, post, hframes, hpre⟩ :=
      List.find?_eq_some_iff_append.mp (h.coming cbs hside hclosed)
    refine fireCancel_comes cfg hframes (fun f hf => ?_) (Nat.le_refl _) hside
    have hmem : f ∈ c.frames.dropLast := by
      rw [hframes, List.dropLast_append_of_ne_nil (by simp)]
      exact List.mem_append_left _ hf
    exact (h.bottom f hmem).resolve_right (by simpa using hpre f hf)
  · obtain ⟨k, hk⟩ : ∃ k, c.st.st.call = some k := by
      cases hk : c.st.st.call with
      | none => simp [cancelSide, hk] at hside
      | some k => exact ⟨k, rfl⟩
    have hopened : c.st.st.opened = true := h.opened (by simp [hside])
    have hfire : Server.fire cfg .streamClose c.st.st =
        some (cancelStreamIo { c.st.st with h2 := c.st.st.h2.close },
          [.cancelOut, .fireCancel, .closeErase]) := by
      simp [Server.fire, hopened, hclosed, hk]
    have hleaves := leaves_cancelStreamIo (s := { c.st.st with h2 := c.st.st.h2.close })
    obtain ⟨d, hs, hst, hframes⟩ := step_conn rfl hfire
    rw [← hst] at hleaves
    obtain ⟨e, he, hran⟩ := fireCancel_comes cfg
      (show d.frames = [.cancelOut] ++ .fireCancel :: .closeErase :: c.frames from hframes)
      (by simp [Frame.brief]) (Nat.le_refl _) (hleaves.side.trans hside)
    refine ⟨e, .trans (.tail .refl trivial hs) he, ?_⟩
    rw [hran, hleaves.ran]

/-! ## Cancellations only -/

/-- A terminal block was submitted, and no cancellation came before it. -/
def answered (l : Life) : Bool := terminated l.st && !l.cause

/-- Does `OnCancel` take a callback in this event? -/
def takes (l : Life) : LifeEvent → Bool
  | .conn (.op (.onCancel _)) => onCancelTaken l.st
  | _ => false

/-- Steps in which a call that was answered has no callback waiting when its stream closes, its
    deadline fires or its connection ends, and takes none. -/
def meant (c : Conf) : Label → Prop
  | .resume => True
  | .event e => answered c.st = true →
      (e.cancels = true → waiting c.st.st = []) ∧ takes c.st e = false

instance (c : Conf) : (l : Label) → Decidable (meant c l)
  | .resume => .isTrue trivial
  | .event e => inferInstanceAs (Decidable (answered c.st = true →
      (e.cancels = true → waiting c.st.st = []) ∧ takes c.st e = false))

/-- Without a cause no callback has run, and none will when `FireCancel` gets its turn. -/
def Meant (c : Conf) : Prop :=
  c.st.cause = false → ranOf c.st.st.log = [] ∧
    (.fireCancel ∈ c.frames → waiting c.st.st = [] ∧ terminated c.st.st = true)

/-- `FireCancel` finds no callback. -/
theorem fires_nothing {s s' : State} (hf : FiresCancel s s') (h : waiting s = []) :
    ranOf s'.log = ranOf s.log ∧ waiting s' = [] := by
  have hran := hf.ran
  have hside := hf.side
  cases hs : cancelSide s with
  | none =>
      rw [due, hs, List.append_nil] at hran
      exact ⟨hran, by simp [waiting, hside, hs]⟩
  | some p =>
      obtain ⟨fired, cbs⟩ := p
      obtain rfl : cbs = [] := by simpa [waiting, hs] using h
      refine ⟨?_, by simp [waiting, hside, hs]⟩
      cases fired with
      | true => simpa [due, hs] using hran
      | false => simpa [due, hs] using hran

theorem meant_turn (h : Meant c) (hok : meant c l) (ht : Turn c d l) : Meant d := by
  cases ht with
  | @resumed f fs gs hc hd hclose hgs hl hkept =>
      intro hcause
      obtain ⟨hran, hwait⟩ := h (hkept.2 ▸ hcause)
      refine ⟨hl.ran.trans hran, fun hmem => ?_⟩
      have hgs : ∀ g ∈ gs, g.closes = false := by
        rcases hgs with ⟨-, hgs⟩ | ⟨-, hlone⟩
        · exact fun g hg => Frame.brief_closes (hgs g hg)
        · exact hlone.2
      have hmem : .fireCancel ∈ fs := by
        rw [hd] at hmem
        refine (List.mem_append.mp hmem).resolve_left fun hg => ?_
        cases hgs _ hg
      obtain ⟨hw, ho⟩ := hwait (hc ▸ List.mem_cons_of_mem f hmem)
      exact ⟨hl.waits.trans hw, hl.terminated ho⟩
  | fired hc hd hf hkept =>
      intro hcause
      obtain ⟨hran, hwait⟩ := h (hkept.2 ▸ hcause)
      obtain ⟨hw, ho⟩ := hwait (hc ▸ List.mem_cons_self)
      obtain ⟨hran', hw'⟩ := fires_nothing hf hw
      exact ⟨hran'.trans hran, fun _ => ⟨hw', hf.terminated ho⟩⟩
  | erased hc hd hs hran hover hkept =>
      intro hcause
      obtain ⟨hran', hwait⟩ := h (hkept.2 ▸ hcause)
      refine ⟨hran.trans hran', fun hmem => ⟨by simp [waiting, hs], hover ?_⟩⟩
      exact (hwait (hc ▸ List.mem_cons_of_mem _ (hd ▸ hmem))).2
  | @quiet e gs hd hgs hl hkept =>
      intro hcause
      obtain ⟨hran, hwait⟩ := h (hkept.2 ▸ hcause)
      refine ⟨hl.ran.trans hran, fun hmem => ?_⟩
      have hgs : ∀ g ∈ gs, g.closes = false := by
        rcases hgs with hgs | ⟨-, hlone⟩
        · exact fun g hg => Frame.brief_closes (hgs g hg)
        · exact hlone.2
      have hmem : .fireCancel ∈ c.frames := by
        rw [hd] at hmem
        refine (List.mem_append.mp hmem).resolve_left fun hg => ?_
        cases hgs _ hg
      obtain ⟨hw, ho⟩ := hwait hmem
      exact ⟨hl.waits.trans hw, hl.terminated ho⟩
  | created hc hlone hs hs' hran hclosed hopened hover hkept =>
      intro hcause
      refine ⟨hran.trans (h (hkept.2 ▸ hcause)).1, fun hmem => ?_⟩
      cases hlone.2 _ hmem
  | @taken cb cbs hd hs hs' hran hh2 hopened hreg hkept =>
      intro hcause
      obtain ⟨hran', hwait⟩ := h (hkept ▸ hcause)
      refine ⟨hran.trans hran', fun hmem => ?_⟩
      -- the call was answered, so `OnCancel` takes nothing
      have hover := (hwait (hd ▸ hmem)).2
      have htaken : onCancelTaken c.st.st = false :=
        (hok (by simp [answered, hover, ← hkept, hcause])).2
      rw [onCancelTaken_iff.mpr ⟨cbs, hs⟩] at htaken
      cases htaken
  | ended he hd hgs hs hran hopened hover hreg hcaused =>
      intro hcause
      obtain ⟨hno, ho⟩ : c.st.cause = false ∧ terminated c.st.st = true := by
        simpa [hcaused] using hcause
      have hw := (hok (by simp [answered, hno, ho])).1 he
      refine ⟨hran.trans (h hno).1, fun _ => ⟨?_, hover ho⟩⟩
      rw [waiting, hs]
      exact hw
  | cancelled he hc hd hnone hf hreg hcaused =>
      intro hcause
      obtain ⟨hno, ho⟩ : c.st.cause = false ∧ terminated c.st.st = true := by
        simpa [hcaused] using hcause
      have hw := (hok (by simp [answered, hno, ho])).1 he
      exact ⟨(fires_nothing hf hw).1.trans (h hno).1, fun hmem => absurd hmem hnone⟩

theorem meant_reach (h : (machine cfg).Reach meant { st := {} } c) : Meant c :=
  h.inv (fun _ => ⟨rfl, fun hmem => by cases hmem⟩) fun _ _ _ hc hok hs => meant_turn hc hok (turn_step hs)

/-- What a step of `OnCancel` does. -/
theorem step_onCancel {cb : CbId} (h : (machine cfg).step c (.event (.conn (.op (.onCancel cb)))) =
    some d) : d.frames = c.frames ∧ d.st = { c.st with
      st := onCancel c.st.st cb
      registered := c.st.registered ++ if onCancelTaken c.st.st then [cb] else [] } := by
  obtain ⟨-, l', gs, hfire, rfl⟩ := Resume.System.step_event h
  have hfire : Life.fire cfg (.conn (.op (.onCancel cb))) c.st = some (l', gs) := hfire
  simp only [Life.fire, Server.anytime, Server.fire, applyOp, Bool.not_true, Bool.and_false,
    Bool.false_eq_true, if_false] at hfire
  split at hfire
  · cases hfire
    exact ⟨rfl, by simp [registers, Event.cancels]⟩
  · cases hfire

end Runs

/-- **Cancellation callbacks mean cancellation**, in a run in which a call that was answered has
    no callback waiting when its stream closes, its deadline fires or its connection ends, and
    takes none. The callbacks that ran, then those that wait, are those registered, in order. One
    has run only if the deadline fired, the stream closed or the connection ended before a
    terminal block was submitted. If `OnCancel` returns true, its callback can still run, after
    those registered before; if it returns false, it has done nothing. -/
theorem cancel_means_cancellation (cfg : Config) (c : Conf)
    (h : (machine cfg).Reach meant { st := {} } c) :
    ranOf c.st.st.log ++ waiting c.st.st = c.st.registered ∧
    (ranOf c.st.st.log ≠ [] → c.st.cause = true) ∧
    ∀ cb d, (machine cfg).step c (.event (.conn (.op (.onCancel cb)))) = some d →
      (onCancelTaken c.st.st = true → ∃ e, (machine cfg).Reach any d e ∧
        ranOf e.st.st.log = c.st.registered ++ [cb]) ∧
      (onCancelTaken c.st.st = false → d = c) := by
  have hstanding := standing_reach h
  refine ⟨hstanding.order, fun hran => ?_, fun cb d hs => ⟨fun htaken => ?_, fun hrefused => ?_⟩⟩
  · by_contra hcause
    exact hran (meant_reach h (Bool.eq_false_of_not_eq_true hcause)).1
  · obtain ⟨-, hst⟩ := step_onCancel hs
    obtain ⟨cbs, hside⟩ := onCancelTaken_iff.mp htaken
    have hside' : cancelSide d.st.st = some (false, cbs ++ [cb]) := by
      rw [hst]
      exact onCancel_side hside cb
    obtain ⟨e, he, hran⟩ := (standing_turn hstanding (turn_step hs)).can_run cfg hside'
    refine ⟨e, he, ?_⟩
    rw [hran, hst]
    simp [htaken]
  · obtain ⟨hframes, hst⟩ := step_onCancel hs
    rw [hrefused, onCancel_refused hrefused] at hst
    obtain ⟨st, frames⟩ := d
    obtain rfl : frames = c.frames := hframes
    obtain rfl : st = c.st := by simpa using hst
    rfl

/-- A bidi call with two callbacks; the peer resets its stream. -/
def resetBidi : List Label :=
  [.event (.conn (.headers (demoHeaders "/t/B") false)), .resume,
    .event (.conn (.op (.onCancel 7))), .event (.conn (.op (.onCancel 8))),
    .event (.conn .streamClose), .resume]

/-- Two callbacks run, in order, when the peer resets the stream. -/
theorem cancel_means_cancellation_reset :
    ∃ c d, (machine demo).Reach meant { st := {} } c ∧ (machine demo).step c .resume = some d ∧
      ranOf d.st.st.log = [7, 8] ∧ d.st.cause = true := by
  obtain ⟨c, d, hc, hd, hran⟩ : ∃ c d, (machine demo).run meant { st := {} } resetBidi = some c ∧
      (machine demo).step c .resume = some d ∧ ranOf d.st.st.log = [7, 8] :=
    ⟨_, _, rfl, rfl, rfl⟩
  have hr := Resume.System.reach_of_run _ _ _ hc
  have hcause := (cancel_means_cancellation demo d (.tail (l := .resume) hr trivial hd)).2.1
  exact ⟨c, d, hr, hd, hran, hcause (by simp [hran])⟩

/-- A unary call is answered, then its stream closes: the callback runs. -/
theorem answered_call_cancelled :
    ((machine demo).run any { st := {} }
      [.event (.conn (.headers (demoHeaders "/t/U") false)), .resume,
        .event (.conn (.data (encodeFrame [1]) true)), .resume,
        .event (.conn (.op (.onCancel 7))), .event (.conn (.op (.respond .okay [2]))),
        .event (.conn (.credit 100)), .resume, .resume, .event (.conn .streamClose), .resume,
        .resume]).map (fun c => (ranOf c.st.st.log, c.st.cause)) = some ([7], false) := by
  decide

end Life

end Urpc.Server
