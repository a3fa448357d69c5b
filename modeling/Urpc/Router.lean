/-
  The router (`Router` of `urpc_router.cpp`), and the bridges of `urpc_api_impl.cc` that fill it
  (`RegisterUnaryRaw`, `RegisterStreamRaw`).

  A registration copies the snapshot, adds one entry and swaps; a refused one drops its copy. The
  snapshot is a `std::map`: here the list of its entries, in the order in which they came, with no
  path twice. Handlers are values of any two types; a null `std::function` is `none`. The bridges
  wrap a handler in a closure, which is never null, and are called on a server that exists.

  Proved here: a registration adds exactly its entry, or changes nothing.
-/
import Urpc.Status

namespace Urpc

open Cxx

variable {U S : Type}

structure HandlerEntry (U S : Type) where
  form : MethodForm := .unary
  unary : Option U := none
  stream : Option S := none
  deriving DecidableEq

structure Router (U S : Type) where
  snapshot : List (Bytes × HandlerEntry U S) := []
  once : (snapshot.map Prod.fst).Nodup := by simp

namespace Router

def paths (r : Router U S) : List Bytes := r.snapshot.map Prod.fst

/-- `Find`. -/
def find (r : Router U S) (path : Bytes) : Option (HandlerEntry U S) := r.snapshot.lookup path

def size (r : Router U S) : Nat := r.snapshot.length

def invalidRegistration (path : Bytes) : Status :=
  ⟨.internal, str "invalid registration: " ++ path⟩

def duplicatePath (path : Bytes) : Status :=
  ⟨.internal, str "duplicate method path: " ++ path ++ str " (rejected)"⟩

def requiresStreamingForm (path : Bytes) : Status :=
  ⟨.internal, str "RegisterStream requires a streaming form: " ++ path⟩

/-- The snapshot with one more entry. -/
def add (r : Router U S) (path : Bytes) (entry : HandlerEntry U S) (h : path ∉ r.paths) :
    Router U S where
  snapshot := r.snapshot ++ [(path, entry)]
  once := by
    rw [List.map_append, List.nodup_append]
    refine ⟨r.once, List.nodup_singleton _, fun p hp q hq heq => h ?_⟩
    rw [heq, List.mem_singleton.mp hq] at hp
    exact hp

/-- What `RegisterUnary` and `RegisterStream` do under the lock. -/
def insert (r : Router U S) (path : Bytes) (entry : HandlerEntry U S) : Status × Router U S :=
  if h : path ∈ r.paths then (duplicatePath path, r) else (.okay, r.add path entry h)

/-- The check that both make first. -/
def invalid (path : Bytes) (handler : Bool) : Bool := path.head? ≠ some 47 || !handler

def registerUnary (r : Router U S) (path : Bytes) (handler : Option U) : Status × Router U S :=
  if invalid path handler.isSome then (invalidRegistration path, r)
  else r.insert path { form := .unary, unary := handler }

def registerStream (r : Router U S) (path : Bytes) (form : MethodForm) (handler : Option S) :
    Status × Router U S :=
  if invalid path handler.isSome then (invalidRegistration path, r)
  else if form = .unary then (requiresStreamingForm path, r)
  else r.insert path { form, stream := handler }

/-- `"/" + service + "/" + method`. -/
def methodPath (service method : Bytes) : Bytes := str "/" ++ service ++ str "/" ++ method

def registerUnaryRaw (r : Router U S) (service method : Bytes) (handler : U) :
    Status × Router U S :=
  r.registerUnary (methodPath service method) (some handler)

def registerStreamRaw (r : Router U S) (service method : Bytes) (form : MethodForm)
    (handler : S) : Status × Router U S :=
  if form = .unary then (⟨.internal, str "RegisterStreamRaw requires a streaming form"⟩, r)
  else r.registerStream (methodPath service method) form (some handler)

/-! ## What a registration does -/

theorem find_eq_none {r : Router U S} {path : Bytes} : r.find path = none ↔ path ∉ r.paths := by
  rw [find, List.lookup_eq_none_iff, paths, List.mem_map]
  refine ⟨fun h ⟨e, he, heq⟩ => ?_, fun h e he => ?_⟩
  · simpa [heq] using h e he
  · exact bne_iff_ne.mpr fun heq => h ⟨e, he, heq.symm⟩

theorem find_add {r : Router U S} {path : Bytes} (entry : HandlerEntry U S)
    (h : path ∉ r.paths) (p : Bytes) :
    (r.add path entry h).find p = if p = path then some entry else r.find p := by
  have hlookup : (r.add path entry h).find p = (r.find p).or ([(path, entry)].lookup p) :=
    List.lookup_append
  rw [hlookup]
  split
  · next heq =>
      subst heq
      simp [find_eq_none.mpr h]
  · next hne => simp [List.lookup, beq_eq_false_iff_ne.mpr hne]

theorem size_add {r : Router U S} {path : Bytes} (entry : HandlerEntry U S)
    (h : path ∉ r.paths) : (r.add path entry h).size = r.size + 1 :=
  List.length_append

theorem insert_new {r : Router U S} {path : Bytes} (entry : HandlerEntry U S)
    (h : path ∉ r.paths) : r.insert path entry = (.okay, r.add path entry h) := dif_neg h

theorem insert_known {r : Router U S} {path : Bytes} (entry : HandlerEntry U S)
    (h : path ∈ r.paths) : r.insert path entry = (duplicatePath path, r) := dif_pos h

end Router

end Urpc
