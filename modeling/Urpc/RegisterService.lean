/-
  The emitted `RegisterService` (`EmitRegister` of `codegen_emit.cc`).

  The generator writes one `st = server.Register…For<…>(…); if (!st.ok()) return st;` for each
  method of the service, in its order, and `return Status::Ok()`. `emitRegister` is the list of
  these calls, `registerService` runs them. A method is registered under the names that its traits
  give; the other fields of the models are not read.

  The function stops at the first path that is taken, and what it has registered up to there stays.
  So it is all or nothing only if the whole service is new, or the very first path is taken.

  Proved: `register_service_atomic_iff`.
-/
import Urpc.Router

namespace Urpc

open Cxx

namespace Codegen

structure MethodModel where
  name : Bytes
  serviceFullName : Bytes
  form : MethodForm := .unary
  deriving DecidableEq

structure ServiceModel where
  methods : List MethodModel

/-- One emitted registration, with what `service_name()` and `method_name()` return. -/
inductive RegisterCall where
  | unaryFor (service method : Bytes)
  | serverStreamingFor (service method : Bytes)
  | clientStreamingFor (service method : Bytes)
  | bidiFor (service method : Bytes)
  deriving DecidableEq

def emitRegisterCall (m : MethodModel) : RegisterCall :=
  match m.form with
  | .unary => .unaryFor m.serviceFullName m.name
  | .serverStreaming => .serverStreamingFor m.serviceFullName m.name
  | .clientStreaming => .clientStreamingFor m.serviceFullName m.name
  | .bidi => .bidiFor m.serviceFullName m.name

def emitRegister (s : ServiceModel) : List RegisterCall := s.methods.map emitRegisterCall

/-- The closures over `impl` that the emitted calls pass, by the name of the method. -/
structure Handlers (U S : Type) where
  unary : Bytes → U
  serverStreaming : Bytes → S
  clientStreaming : Bytes → S
  bidi : Bytes → S

variable {U S : Type}

def RegisterCall.run (impl : Handlers U S) (r : Router U S) : RegisterCall → Status × Router U S
  | .unaryFor service method => r.registerUnaryRaw service method (impl.unary method)
  | .serverStreamingFor service method =>
      r.registerStreamRaw service method .serverStreaming (impl.serverStreaming method)
  | .clientStreamingFor service method =>
      r.registerStreamRaw service method .clientStreaming (impl.clientStreaming method)
  | .bidiFor service method => r.registerStreamRaw service method .bidi (impl.bidi method)

/-- The body of the emitted function. -/
def runCalls (impl : Handlers U S) (r : Router U S) : List RegisterCall → Status × Router U S
  | [] => (.okay, r)
  | call :: calls =>
      let (st, r) := call.run impl r
      if !st.ok then (st, r) else runCalls impl r calls

def registerService (s : ServiceModel) (impl : Handlers U S) (r : Router U S) :
    Status × Router U S :=
  runCalls impl r (emitRegister s)

/-! ## All or nothing -/

def MethodModel.path (m : MethodModel) : Bytes := Router.methodPath m.serviceFullName m.name

def ServiceModel.paths (s : ServiceModel) : List Bytes := s.methods.map MethodModel.path

/-- The entry under which a method is found. -/
def entryOf (impl : Handlers U S) (m : MethodModel) : HandlerEntry U S :=
  match m.form with
  | .unary => { form := .unary, unary := some (impl.unary m.name) }
  | .serverStreaming => { form := .serverStreaming, stream := some (impl.serverStreaming m.name) }
  | .clientStreaming => { form := .clientStreaming, stream := some (impl.clientStreaming m.name) }
  | .bidi => { form := .bidi, stream := some (impl.bidi m.name) }

/-- `r'` is `r` with the methods, which are new, and nothing else. -/
structure Added (impl : Handlers U S) (methods : List MethodModel) (r r' : Router U S) :
    Prop where
  fresh : ∀ m ∈ methods, r.find m.path = none
  found : ∀ m ∈ methods, r'.find m.path = some (entryOf impl m)
  others : ∀ path, (∀ m ∈ methods, m.path ≠ path) → r'.find path = r.find path
  size : r'.size = r.size + methods.length

/-- OK with exactly the methods added, or not OK with nothing changed. -/
def Atomic (impl : Handlers U S) (s : ServiceModel) (r : Router U S)
    (res : Status × Router U S) : Prop :=
  (res.1.ok = true ∧ Added impl s.methods r res.2) ∨
    (res.1.ok = false ∧ (∀ path, res.2.find path = r.find path) ∧ res.2.size = r.size)

/-- The service is new as a whole, or its first path is taken. -/
def CollidesAtFirst (s : ServiceModel) (r : Router U S) : Prop :=
  (s.paths.Nodup ∧ ∀ path ∈ s.paths, path ∉ r.paths) ∨ ∃ path ∈ s.paths.head?, path ∈ r.paths

variable {impl : Handlers U S} {r : Router U S} {m : MethodModel} {ms : List MethodModel}

/-- One emitted call is one insertion. -/
theorem run_emitted (impl : Handlers U S) (r : Router U S) (m : MethodModel) :
    (emitRegisterCall m).run impl r = r.insert m.path (entryOf impl m) := by
  unfold emitRegisterCall entryOf
  cases m.form <;> rfl

theorem runCalls_new (h : m.path ∉ r.paths) :
    runCalls impl r ((m :: ms).map emitRegisterCall) =
      runCalls impl (r.add m.path (entryOf impl m) h) (ms.map emitRegisterCall) := by
  rw [List.map_cons, runCalls, run_emitted, Router.insert_new _ h]
  rfl

theorem runCalls_known (h : m.path ∈ r.paths) :
    runCalls impl r ((m :: ms).map emitRegisterCall) = (Router.duplicatePath m.path, r) := by
  rw [List.map_cons, runCalls, run_emitted, Router.insert_known _ h]
  rfl

/-- The router never shrinks. -/
theorem size_runCalls (impl : Handlers U S) (r : Router U S) (ms : List MethodModel) :
    r.size ≤ (runCalls impl r (ms.map emitRegisterCall)).2.size := by
  induction ms generalizing r with
  | nil => exact Nat.le_refl _
  | cons m ms ih =>
      by_cases h : m.path ∈ r.paths
      · exact Nat.le_of_eq (congrArg (fun p => p.2.size) (runCalls_known h)).symm
      · rw [runCalls_new h]
        have hmore := ih (r.add m.path (entryOf impl m) h)
        rw [Router.size_add] at hmore
        omega

theorem paths_add (entry : HandlerEntry U S) {path : Bytes} (h : path ∉ r.paths) :
    (r.add path entry h).paths = r.paths ++ [path] := by
  simp [Router.paths, Router.add]

/-- OK means that every path was new, and not twice in the service. -/
theorem runCalls_ok (h : (runCalls impl r (ms.map emitRegisterCall)).1.ok = true) :
    (ms.map MethodModel.path).Nodup ∧ ∀ m ∈ ms, m.path ∉ r.paths := by
  induction ms generalizing r with
  | nil => exact ⟨List.nodup_nil, by simp⟩
  | cons m ms ih =>
      by_cases hm : m.path ∈ r.paths
      · rw [runCalls_known hm] at h
        cases h
      · rw [runCalls_new hm] at h
        obtain ⟨hnodup, hnew⟩ := ih h
        have hout : ∀ m' ∈ ms, m'.path ∉ r.paths ∧ m'.path ≠ m.path := by
          intro m' hm'
          simpa [paths_add, not_or] using hnew m' hm'
        refine ⟨List.nodup_cons.mpr ⟨fun hmem => ?_, hnodup⟩, ?_⟩
        · obtain ⟨m', hm', heq⟩ := List.mem_map.mp hmem
          exact (hout m' hm').2 heq
        · intro m' hm'
          rcases List.mem_cons.mp hm' with rfl | hm'
          · exact hm
          · exact (hout m' hm').1

/-- A service that is new as a whole. -/
theorem runCalls_added (hnodup : (ms.map MethodModel.path).Nodup)
    (hnew : ∀ m ∈ ms, m.path ∉ r.paths) :
    (runCalls impl r (ms.map emitRegisterCall)).1.ok = true ∧
      Added impl ms r (runCalls impl r (ms.map emitRegisterCall)).2 := by
  induction ms generalizing r with
  | nil => exact ⟨rfl, by simp, by simp, fun _ _ => rfl, rfl⟩
  | cons m ms ih =>
      have hm : m.path ∉ r.paths := hnew m List.mem_cons_self
      obtain ⟨hout, hnodup⟩ := List.nodup_cons.mp hnodup
      have hne : ∀ m' ∈ ms, m'.path ≠ m.path := fun m' hm' heq =>
        hout (List.mem_map.mpr ⟨m', hm', heq⟩)
      rw [runCalls_new hm]
      obtain ⟨hok, hadd⟩ := ih (r := r.add m.path (entryOf impl m) hm) hnodup fun m' hm' => by
        have := hnew m' (List.mem_cons_of_mem m hm')
        simp [paths_add, this, hne m' hm']
      refine ⟨hok, fun m' hm' => Router.find_eq_none.mpr (hnew m' hm'), ?_, ?_, ?_⟩
      · intro m' hm'
        rcases List.mem_cons.mp hm' with rfl | hm'
        · rw [hadd.others m'.path hne, Router.find_add, if_pos rfl]
        · exact hadd.found m' hm'
      · intro path hpath
        rw [hadd.others path fun m' hm' => hpath m' (List.mem_cons_of_mem m hm'),
          Router.find_add, if_neg (hpath m List.mem_cons_self).symm]
      · rw [hadd.size, Router.size_add, List.length_cons]
        omega

/-- **Registration is all or nothing, or not.** For every service and every router: the emitted
    `RegisterService` adds exactly the methods of the service or changes nothing, if and only if
    all its paths are new and different or its first one is taken. -/
theorem register_service_atomic_iff (s : ServiceModel) (impl : Handlers U S) (r : Router U S) :
    Atomic impl s r (registerService s impl r) ↔ CollidesAtFirst s r := by
  obtain ⟨ms⟩ := s
  change Atomic impl ⟨ms⟩ r (runCalls impl r (ms.map emitRegisterCall)) ↔ _
  constructor
  · rintro (⟨hok, -⟩ | ⟨hbad, -, hsize⟩)
    · obtain ⟨hnodup, hnew⟩ := runCalls_ok hok
      exact .inl ⟨hnodup, by simpa [ServiceModel.paths] using hnew⟩
    · cases ms with
      | nil => cases hbad
      | cons m ms =>
          refine .inr ⟨m.path, rfl, ?_⟩
          by_contra hm
          rw [runCalls_new hm] at hsize
          -- the first method would have been added for good
          have := size_runCalls impl (r.add m.path (entryOf impl m) hm) ms
          rw [hsize, Router.size_add] at this
          omega
  · rintro (⟨hnodup, hnew⟩ | ⟨path, hpath, hknown⟩)
    · exact .inl (runCalls_added hnodup (by simpa [ServiceModel.paths] using hnew))
    · cases ms with
      | nil => cases hpath
      | cons m ms =>
          obtain rfl : m.path = path := by simpa [ServiceModel.paths] using hpath
          rw [runCalls_known hknown]
          exact .inr ⟨rfl, fun _ => rfl, rfl⟩

/-- A service whose second method is registered already: the first one stays registered. -/
theorem register_service_leaves_first :
    let r : Router Nat Nat := (({} : Router Nat Nat).registerUnaryRaw (str "e.E") (str "Slow") 1).2
    let s : ServiceModel := ⟨[⟨str "Echo", str "e.E", .unary⟩, ⟨str "Slow", str "e.E", .unary⟩]⟩
    let impl : Handlers Nat Nat := ⟨fun _ => 2, fun _ => 3, fun _ => 4, fun _ => 5⟩
    let res := registerService s impl r
    res.1.ok = false ∧ r.find (str "/e.E/Echo") = none ∧
      (res.2.find (str "/e.E/Echo")).isSome = true ∧ r.size = 1 ∧ res.2.size = 2 := by
  decide

end Codegen

end Urpc
