/-
  A typed server-streaming call: `ServerWriter` and the wrapper of `RegisterServerStreamingFor`
  over the core's stream.

  What the core calls (the stream handler, the read callback, a write callback) is in its log;
  `react` makes a frame of each, which runs before the rest of the core's function. The user's
  code, that is the handler and the callbacks given to `Write`, runs while such a frame waits.
  Operations on a context that is gone do nothing here. Exceptions are left out.

  `truths` and `autos` are records kept for the proofs: the messages for which `Write` returned
  true, and the automatic `Finish(OK)` calls.
-/
import Urpc.Api.ServerWriter
import Urpc.Server.Callbacks
import Urpc.Server.Log
import Urpc.Server.SendQueue

namespace Urpc.Api.ServerStream

open Cxx

/-! ## The model -/

structure Config where
  path : Bytes
  maxReceiveSize : Nat := FrameDecoder.defaultMaxMessageSize
  arena : Bool := true                 -- `upb_Arena_New` gives an arena for the request
  parse : Bytes → Bool                 -- `M::ParseRequest` gives a message

/-- The method is the only one that matters to the call. -/
def Config.core (cfg : Config) : Server.Config where
  maxReceiveSize := cfg.maxReceiveSize
  router path := if path = cfg.path then some .serverStreaming else none

/-- The callback that the wrapper gives to `ReadMessage`. -/
def reception : Server.CbId := 0

/-- The callback that `Write` gives to `WriteMessage`. -/
def delivery : Server.CbId := 0

structure State where
  core : Server.State := {}
  w : ServerWriteState := {}
  serving : Bool := false              -- the handler was called
  truths : List Bytes := []
  autos : Nat := 0

inductive Frame where
  | core (f : Server.Frame)
  | dispatched
  | request (st : Status) (eos : Bool) (msg : Bytes)
  | afterHandler
  | onDelivered
  deriving DecidableEq

inductive Event where
  | core (e : Server.Event)
  | write (m : Outgoing)
  | finish (st : Status)
  deriving DecidableEq

/-- What runs when the core calls back. -/
def react : Server.Obs → List Frame
  | .stream _ => [.dispatched]
  | .read cb st eos msg => if cb = reception then [.request st eos msg] else []
  | .wrote cb _ => if cb = delivery then [.onDelivered] else []
  | .unary _ | .cancelled _ => []

/-- The core has made a step; what it called runs first. -/
def lift (s : State) (r : Server.State × List Server.Frame) : State × List Frame :=
  ({ s with core := r.1 },
    (r.1.log.drop s.core.log.length).flatMap react ++ r.2.map .core)

/-- An operation on the core's context. -/
def coreOp (s : State) (o : Server.Op) : State × List Frame :=
  match Server.applyOp s.core o with
  | some r => lift s r
  | none => (s, [])

/-- The automatic `Finish`, if there is one. -/
def autoFinish (s : State) (st : Option Status) : State × List Frame :=
  match st with
  | some st => coreOp { s with autos := s.autos + st.ok.toNat } (.finish st)
  | none => (s, [])

def exec (cfg : Config) (f : Frame) (s : State) : State × List Frame :=
  match f with
  | .core f => lift s (Server.exec f s.core)
  | .dispatched => coreOp s (.readMessage reception)
  | .request st eos msg =>
      match onRequest st eos cfg.arena (cfg.parse msg) with
      | .ignore => (s, [])
      | .refuse st => coreOp s (.finish st)
      | .call => ({ s with serving := true }, [.afterHandler])
  | .afterHandler => autoFinish { s with w := s.w.afterHandler.1 } s.w.afterHandler.2
  | .onDelivered => autoFinish { s with w := s.w.onDelivered.1 } s.w.onDelivered.2

/-- The events of the core that the typed layer leaves to others. -/
def foreign : Server.Event → Bool
  | .op (.onCancel _) => true
  | .op _ => false
  | _ => true

def fire (cfg : Config) (e : Event) (s : State) : Option (State × List Frame) :=
  match e with
  | .core e =>
      if !foreign e then none else (Server.fire cfg.core e s.core).map (lift s)
  | .write m =>
      if !s.serving then none
      else
        match s.w.encode m with
        | .ok payload =>
            some (coreOp { s with w := s.w.counted, truths := s.truths ++ [payload] }
              (.writeMessage payload (some delivery)))
        | .error _ => some (s, [])
  | .finish st =>
      if !s.serving then none
      else if s.w.finish.2 then some (coreOp { s with w := s.w.finish.1 } (.finish st))
      else some ({ s with w := s.w.finish.1 }, [])

def anytime : Event → Bool
  | .core e => Server.anytime e
  | .write _ | .finish _ => true

def machine (cfg : Config) : Resume.System State Frame Event where
  exec := exec cfg
  fire := fire cfg
  anytime := anytime
  settled s := s.core.h2.notes.isEmpty

abbrev Conf := Resume.Conf State Frame
abbrev Label := Resume.Label Event

/-! ## The core's part -/

def Frame.inner : Frame → Option Server.Frame
  | .core f => some f
  | _ => none

/-- The core's part of the stack. -/
def innerFrames (fs : List Frame) : List Server.Frame := fs.filterMap Frame.inner

/-- The core's part of a configuration. -/
def inner (c : Conf) : Server.Conf := ⟨c.st.core, innerFrames c.frames⟩

theorem innerFrames_react (os : List Server.Obs) : innerFrames (os.flatMap react) = [] := by
  refine List.filterMap_eq_nil_iff.mpr fun f hf => ?_
  obtain ⟨o, -, hf⟩ := List.mem_flatMap.mp hf
  cases o with
  | stream first =>
      obtain rfl := List.mem_singleton.mp hf
      rfl
  | read cb st eos msg =>
      simp only [react] at hf
      split at hf
      · obtain rfl := List.mem_singleton.mp hf
        rfl
      · cases hf
  | wrote cb st =>
      simp only [react] at hf
      split at hf
      · obtain rfl := List.mem_singleton.mp hf
        rfl
      · cases hf
  | unary | cancelled => cases hf

theorem innerFrames_lift (s : State) (r : Server.State × List Server.Frame) :
    innerFrames (lift s r).2 = r.2 := by
  rw [lift, innerFrames, List.filterMap_append, ← innerFrames, innerFrames_react, List.nil_append,
    List.filterMap_map]
  exact List.filterMap_some

/-- The calls of write callbacks that are running. -/
def deliveries (fs : List Frame) : Nat := fs.count .onDelivered

/-- How often the core has called the callback of `Write`. -/
def delivered (s : Server.State) : Nat := (Server.told s.log).count (.write delivery)

theorem deliveries_react (os : List Server.Obs) :
    deliveries (os.flatMap react) = (Server.told os).count (.write delivery) := by
  induction os with
  | nil => rfl
  | cons o os ih =>
      rw [List.flatMap_cons, deliveries, List.count_append, ← deliveries, ← deliveries, ih]
      have hone : deliveries (react o) = (Server.told [o]).count (.write delivery) := by
        cases o with
        | wrote cb st =>
            simp only [react, deliveries, Server.told, Server.Obs.token, List.filterMap_cons]
            split
            · next h => simp [h]
            · next h => simp [h]
        | read cb st eos msg =>
            simp only [react, deliveries, Server.told, Server.Obs.token, List.filterMap_cons]
            split <;> simp
        | unary | stream | cancelled => rfl
      have htold : Server.told (o :: os) = Server.told [o] ++ Server.told os := by
        rw [Server.told, Server.told, Server.told, ← List.filterMap_append]
        rfl
      rw [hone, htold, List.count_append]

/-- Every call that the core makes of the callback of `Write` gets a frame. -/
theorem deliveries_lift {s : State} {r : Server.State × List Server.Frame}
    (h : s.core.log <+: r.1.log) :
    deliveries (lift s r).2 + delivered s.core = delivered r.1 := by
  obtain ⟨os, hos⟩ := h
  have hdrop : r.1.log.drop s.core.log.length = os := by rw [← hos, List.drop_left]
  have hcore : deliveries (r.2.map Frame.core) = 0 := by
    rw [deliveries, List.count_eq_zero]
    simp
  rw [lift, hdrop, deliveries, List.count_append, ← deliveries, ← deliveries, hcore,
    deliveries_react, delivered, delivered, ← hos, Server.told, Server.told, Server.told,
    List.filterMap_append, List.count_append]
  omega

/-! ## Steps -/

/-- What a step of the core does to the typed layer: nothing but the frames of what it calls. -/
structure Follows (cfg : Config) (l : Server.Label) (s : State) (fs : List Frame) (d : Conf) :
    Prop where
  rest : ∃ core, d.st = { s with core }
  step : (Server.machine cfg.core).step ⟨s.core, innerFrames fs⟩ l = some (inner d)
  calls : deliveries d.frames + delivered s.core = deliveries fs + delivered d.st.core

theorem innerFrames_append_lift (s : State) (r : Server.State × List Server.Frame)
    (fs : List Frame) : innerFrames ((lift s r).2 ++ fs) = r.2 ++ innerFrames fs := by
  rw [innerFrames, List.filterMap_append, ← innerFrames, ← innerFrames, innerFrames_lift]

theorem deliveries_append_lift {s : State} {r : Server.State × List Server.Frame}
    (fs : List Frame) (h : s.core.log <+: r.1.log) :
    deliveries ((lift s r).2 ++ fs) + delivered s.core =
      deliveries fs + delivered (lift s r).1.core := by
  have hcalls := deliveries_lift h
  simp only [deliveries, List.count_append] at hcalls ⊢
  change _ = _ + delivered r.1
  omega

theorem follows_lift {cfg : Config} {l : Server.Label} {s : State} {fs : List Frame}
    {r : Server.State × List Server.Frame}
    (h : (Server.machine cfg.core).step ⟨s.core, innerFrames fs⟩ l =
      some ⟨r.1, r.2 ++ innerFrames fs⟩) :
    Follows cfg l s fs ⟨(lift s r).1, (lift s r).2 ++ fs⟩ where
  rest := ⟨r.1, rfl⟩
  step := by
    rw [h, inner, innerFrames_append_lift]
    rfl
  calls := deliveries_append_lift fs (Server.log_step h)

/-- The core resumes a frame of its own. -/
theorem follows_pop (cfg : Config) (s : State) (f : Server.Frame) (fs : List Frame) :
    Follows cfg .resume s (.core f :: fs)
      ⟨(lift s (Server.exec f s.core)).1, (lift s (Server.exec f s.core)).2 ++ fs⟩ where
  rest := ⟨_, rfl⟩
  step := by
    rw [inner, innerFrames_append_lift]
    rfl
  calls := by
    have hstep : (Server.machine cfg.core).step ⟨s.core, [f]⟩ .resume =
        some ⟨(Server.exec f s.core).1, (Server.exec f s.core).2 ++ []⟩ := rfl
    have hpop : deliveries (.core f :: fs) = deliveries fs := List.count_cons_of_ne (by simp)
    rw [hpop]
    exact deliveries_append_lift fs (Server.log_step hstep)

/-- An event of the core that may happen in the typed layer may happen in the core. -/
theorem enabled_inner {cfg : Config} {s : State} {fs : List Frame} {e : Server.Event}
    (h : (machine cfg).enabled (.core e) ⟨s, fs⟩ = true) :
    (Server.machine cfg.core).enabled e ⟨s.core, innerFrames fs⟩ = true := by
  simp only [Resume.System.enabled, Bool.or_eq_true, Bool.and_eq_true] at h ⊢
  refine h.imp id fun h => ⟨?_, h.2⟩
  rw [List.isEmpty_iff.mp h.1]
  rfl

/-- An operation on the context: the core makes a step, or the context is gone. -/
theorem coreOp_follows (cfg : Config) (s : State) (o : Server.Op) (fs : List Frame) :
    Follows cfg (.event (.op o)) s fs ⟨(coreOp s o).1, (coreOp s o).2 ++ fs⟩ ∨
      Server.applyOp s.core o = none ∧ coreOp s o = (s, []) := by
  unfold coreOp
  cases ho : Server.applyOp s.core o with
  | none => exact .inr ⟨rfl, rfl⟩
  | some r =>
      refine .inl (follows_lift ?_)
      change (if true = true then (Server.applyOp s.core o).map _ else none) = _
      rw [if_pos rfl, ho]
      rfl

/-- An operation that the typed layer calls in `s`, or none, and what it leaves in `d`. -/
inductive Passes (cfg : Config) (s : State) (fs : List Frame) (d : Conf) :
    Option Server.Op → Prop where
  | none : d.st = s → innerFrames d.frames = innerFrames fs → deliveries d.frames = deliveries fs →
      Passes cfg s fs d none
  | gone {o} : Server.applyOp s.core o = none → d = ⟨s, fs⟩ → Passes cfg s fs d (some o)
  | some {o} : Follows cfg (.event (.op o)) s fs d → Passes cfg s fs d (some o)

theorem passes_coreOp (cfg : Config) (s : State) (o : Server.Op) (fs : List Frame) :
    Passes cfg s fs ⟨(coreOp s o).1, (coreOp s o).2 ++ fs⟩ (some o) := by
  rcases coreOp_follows cfg s o fs with h | ⟨ho, h⟩
  · exact .some h
  · exact .gone ho (by rw [h]; rfl)

/-- The automatic calls of `Finish` with OK. -/
def okays (st : Option Status) : Nat := (st.map fun st => st.ok.toNat).getD 0

theorem passes_autoFinish (cfg : Config) (s : State) (st : Option Status) (fs : List Frame) :
    Passes cfg { s with autos := s.autos + okays st } fs
      ⟨(autoFinish s st).1, (autoFinish s st).2 ++ fs⟩ (st.map .finish) := by
  cases st with
  | none => exact .none rfl rfl rfl
  | some st => exact passes_coreOp cfg { s with autos := s.autos + st.ok.toNat } (.finish st) fs

/-- The typed layer's part of a step: its state, the frames that wait, and the operation that it
    calls. -/
inductive Acts (c : Conf) : Label → State → List Frame → Option Server.Op → Prop where
  | dispatched {fs} : c.frames = .dispatched :: fs →
      Acts c .resume c.st fs (some (.readMessage reception))
  | ignored {st eos msg fs} : c.frames = .request st eos msg :: fs →
      Acts c .resume c.st fs none
  | refused {st eos msg fs st'} : c.frames = .request st eos msg :: fs →
      Acts c .resume c.st fs (some (.finish st'))
  | called {st eos msg fs} : c.frames = .request st eos msg :: fs →
      Acts c .resume { c.st with serving := true } fs none
  | afterHandler {fs} : c.frames = .afterHandler :: fs →
      Acts c .resume
        { c.st with
          w := c.st.w.afterHandler.1, autos := c.st.autos + okays c.st.w.afterHandler.2 }
        fs (c.st.w.afterHandler.2.map .finish)
  | onDelivered {fs} : c.frames = .onDelivered :: fs →
      Acts c .resume
        { c.st with
          w := c.st.w.onDelivered.1, autos := c.st.autos + okays c.st.w.onDelivered.2 }
        fs (c.st.w.onDelivered.2.map .finish)
  | wrote {m payload} : c.st.w.encode m = .ok payload →
      Acts c (.event (.write m))
        { c.st with w := c.st.w.counted, truths := c.st.truths ++ [payload] }
        c.frames (some (.writeMessage payload (some delivery)))
  | failed {m st} : c.st.w.encode m = .error st →
      Acts c (.event (.write m)) c.st c.frames none
  | finished {st} :
      Acts c (.event (.finish st)) { c.st with w := c.st.w.finish.1 } c.frames
        (if c.st.w.finish.2 then some (.finish st) else none)

/-- Every step is one of the core or one of the typed layer. -/
inductive Step (cfg : Config) (c d : Conf) : Label → Prop where
  | resumed {f fs} : c.frames = .core f :: fs → Follows cfg .resume c.st c.frames d →
      Step cfg c d .resume
  | event {e} : foreign e = true → Follows cfg (.event e) c.st c.frames d →
      Step cfg c d (.event (.core e))
  | typed {l s fs o} : Acts c l s fs o → Passes cfg s fs d o → Step cfg c d l

theorem step_resumed {cfg : Config} {c d : Conf} (h : (machine cfg).step c .resume = some d) :
    Step cfg c d .resume := by
  obtain ⟨s, frames⟩ := c
  obtain ⟨f, fs, rfl, rfl⟩ : ∃ f fs, frames = f :: fs ∧
      d = ⟨(exec cfg f s).1, (exec cfg f s).2 ++ fs⟩ := Resume.System.step_resume h
  cases f with
  | core f => exact .resumed rfl (follows_pop cfg s f fs)
  | dispatched => exact .typed (.dispatched rfl) (passes_coreOp cfg s _ fs)
  | request st eos msg =>
      simp only [exec]
      cases onRequest st eos cfg.arena (cfg.parse msg) with
      | ignore => exact .typed (.ignored rfl) (.none rfl rfl rfl)
      | refuse st' => exact .typed (.refused rfl) (passes_coreOp cfg s _ fs)
      | call => exact .typed (.called rfl) (.none rfl rfl rfl)
  | afterHandler =>
      exact .typed (.afterHandler rfl)
        (passes_autoFinish cfg { s with w := s.w.afterHandler.1 } s.w.afterHandler.2 fs)
  | onDelivered =>
      exact .typed (.onDelivered rfl)
        (passes_autoFinish cfg { s with w := s.w.onDelivered.1 } s.w.onDelivered.2 fs)

theorem step_fired {cfg : Config} {c d : Conf} {e : Event}
    (h : (machine cfg).step c (.event e) = some d) : Step cfg c d (.event e) := by
  obtain ⟨s, frames⟩ := c
  obtain ⟨hen, s', gs, hfire, rfl⟩ := Resume.System.step_event h
  have hfire : fire cfg e s = some (s', gs) := hfire
  cases e with
  | core e =>
      simp only [fire] at hfire
      split at hfire
      · cases hfire
      · next hforeign =>
          obtain ⟨r, hr, hd⟩ := Option.map_eq_some_iff.mp hfire
          refine .event (by simpa using hforeign) ?_
          have hcore : (Server.machine cfg.core).step ⟨s.core, innerFrames frames⟩ (.event e) =
              some ⟨r.1, r.2 ++ innerFrames frames⟩ := by
            have hen' : (Server.machine cfg.core).enabled e ⟨s.core, innerFrames frames⟩ = true :=
              enabled_inner hen
            simp only [Resume.System.step, hen']
            exact congrArg (Option.map _) hr
          have := follows_lift hcore
          rw [hd] at this
          exact this
  | write m =>
      simp only [fire] at hfire
      split at hfire
      · cases hfire
      · cases hm : s.w.encode m with
        | ok payload =>
            rw [hm] at hfire
            have hr := Option.some.inj hfire
            have hpass := passes_coreOp cfg
              { s with w := s.w.counted, truths := s.truths ++ [payload] }
              (.writeMessage payload (some delivery)) frames
            rw [hr] at hpass
            exact .typed (.wrote hm) hpass
        | error st =>
            rw [hm] at hfire
            cases hfire
            exact .typed (.failed hm) (.none rfl rfl rfl)
  | finish st =>
      refine .typed .finished ?_
      simp only [fire] at hfire
      split at hfire
      · cases hfire
      · cases hfin : s.w.finish.2 with
        | true =>
            rw [hfin] at hfire
            have hr := Option.some.inj hfire
            have hpass := passes_coreOp cfg { s with w := s.w.finish.1 } (.finish st) frames
            rw [hr] at hpass
            exact hpass
        | false =>
            rw [hfin] at hfire
            cases hfire
            exact .none rfl rfl rfl

theorem step_cases {cfg : Config} {c d : Conf} {l : Label}
    (h : (machine cfg).step c l = some d) : Step cfg c d l := by
  cases l with
  | resume => exact step_resumed h
  | event e => exact step_fired h

end Urpc.Api.ServerStream
