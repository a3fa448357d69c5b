/-
  The router as a registry in which the first registration of a path wins.

  `Registration` is a call of `RegisterUnary` or `RegisterStream` with any arguments. The abstract
  registry is the list of the calls that are accepted: `admits` says when, without looking at a
  router. `Holds r accepted` relates a router to it; `holds_register` is the step of the
  refinement, and every result about sequences of calls is read off the list.

  Proved: `first_registration_wins`.
-/
import Urpc.Router

namespace Urpc

open Cxx

variable {U S : Type}

/-- A call of `RegisterUnary` or `RegisterStream`. -/
inductive Registration (U S : Type) where
  | unary (path : Bytes) (handler : Option U)
  | stream (path : Bytes) (form : MethodForm) (handler : Option S)
  deriving DecidableEq

namespace Registration

def path : Registration U S → Bytes
  | .unary path _ | .stream path _ _ => path

def register (r : Router U S) : Registration U S → Status × Router U S
  | .unary path handler => r.registerUnary path handler
  | .stream path form handler => r.registerStream path form handler

/-- The handler and the form under which the path is to be found. -/
def entry : Registration U S → HandlerEntry U S
  | .unary _ handler => { form := .unary, unary := handler }
  | .stream _ form handler => { form, stream := handler }

/-- The handler is there, and the form is one for the operation. -/
def fits : Registration U S → Bool
  | .unary _ handler => handler.isSome
  | .stream _ form handler => handler.isSome && form != .unary

/-- The path starts with `/`, the handler and the form fit, and the path is new. -/
def admits (accepted : List (Registration U S)) (op : Registration U S) : Bool :=
  op.path.head? == some 47 && op.fits && !(accepted.map path).contains op.path

/-- The abstract registry after one more call. -/
def enrol (accepted : List (Registration U S)) (op : Registration U S) :
    List (Registration U S) :=
  if admits accepted op then accepted ++ [op] else accepted

end Registration

open Registration

/-- The router after the calls. -/
def Router.registerAll (r : Router U S) (ops : List (Registration U S)) : Router U S :=
  ops.foldl (fun r op => (op.register r).2) r

/-- The calls that the router answers with OK, in order. -/
def Router.accepted (r : Router U S) : List (Registration U S) → List (Registration U S)
  | [] => []
  | op :: ops =>
      if (op.register r).1.ok then op :: accepted (op.register r).2 ops
      else accepted (op.register r).2 ops

/-- An entry has the handler that its form requires, and no other. -/
def HandlerEntry.Exact (e : HandlerEntry U S) : Prop :=
  e.form = .unary ∧ e.unary.isSome = true ∧ e.stream = none ∨
    e.form ≠ .unary ∧ e.unary = none ∧ e.stream.isSome = true

/-! ## The refinement -/

/-- The router holds the entries of the accepted calls. -/
def Holds (r : Router U S) (accepted : List (Registration U S)) : Prop :=
  r.snapshot = accepted.map fun op => (op.path, op.entry)

variable {r : Router U S} {accepted : List (Registration U S)}

theorem holds_empty : Holds ({} : Router U S) [] := rfl

theorem Holds.paths (h : Holds r accepted) : r.paths = accepted.map path := by
  rw [Router.paths, h, List.map_map]
  rfl

theorem Holds.find (h : Holds r accepted) (p : Bytes) :
    r.find p = (accepted.find? fun op => op.path = p).map entry := by
  rw [Router.find, h]
  clear h
  induction accepted with
  | nil => rfl
  | cons op accepted ih =>
      by_cases hp : op.path = p
      · simp [hp]
      · have hne : (p == op.path) = false := beq_eq_false_iff_ne.mpr (Ne.symm hp)
        rw [List.map_cons, List.lookup_cons, hne, List.find?_cons_of_neg (by simpa using hp)]
        exact ih

theorem invalid_eq_true {path : Bytes} {handler : Bool} :
    Router.invalid path handler = true ↔ ¬(path.head? = some 47 ∧ handler = true) := by
  cases handler <;> simp [Router.invalid]

/-- Both operations: a check that does not look at the router, then an insertion. -/
theorem register_eq (r : Router U S) (op : Registration U S) :
    (∃ st : Status, st.ok = false ∧ op.register r = (st, r)) ∧
        ¬(op.path.head? = some 47 ∧ op.fits = true) ∨
      op.register r = r.insert op.path op.entry ∧ op.path.head? = some 47 ∧ op.fits = true := by
  cases op with
  | unary path handler =>
      simp only [register, Router.registerUnary, Registration.path, fits, entry]
      split
      · next hbad =>
          refine .inl ⟨⟨Router.invalidRegistration path, rfl, rfl⟩, ?_⟩
          exact invalid_eq_true.mp hbad
      · next hgood =>
          rw [invalid_eq_true, not_not] at hgood
          exact .inr ⟨rfl, hgood⟩
  | stream path form handler =>
      simp only [register, Router.registerStream, Registration.path, fits, entry]
      split
      · next hbad =>
          refine .inl ⟨⟨Router.invalidRegistration path, rfl, rfl⟩, fun hgood => ?_⟩
          rw [Bool.and_eq_true] at hgood
          exact invalid_eq_true.mp hbad ⟨hgood.1, hgood.2.1⟩
      · next hgood =>
          split
          · next hform =>
              refine .inl ⟨⟨Router.requiresStreamingForm path, rfl, rfl⟩, fun hfit => ?_⟩
              simp [hform] at hfit
          · next hform =>
              rw [invalid_eq_true, not_not] at hgood
              refine .inr ⟨rfl, hgood.1, ?_⟩
              rw [hgood.2, bne_iff_ne.mpr hform]
              rfl

/-- One call: it is accepted when the abstract registry admits it, and else changes nothing. -/
theorem holds_register (h : Holds r accepted) (op : Registration U S) :
    if admits accepted op then
      (op.register r).1.ok = true ∧ Holds (op.register r).2 (accepted ++ [op])
    else (op.register r).1.ok = false ∧ (op.register r).2 = r := by
  rcases register_eq r op with ⟨⟨st, hst, heq⟩, hbad⟩ | ⟨heq, hslash, hfits⟩
  · have hno : admits accepted op = false := by
      by_contra hyes
      simp only [admits, Bool.not_eq_false, Bool.and_eq_true, beq_iff_eq] at hyes
      exact hbad hyes.1
    rw [hno, heq]
    exact ⟨hst, rfl⟩
  · by_cases hknown : op.path ∈ r.paths
    · have hno : admits accepted op = false := by
        simp [admits, ← h.paths, hknown]
      rw [hno, heq, Router.insert_known _ hknown]
      exact ⟨rfl, rfl⟩
    · have hyes : admits accepted op = true := by
        simp [admits, ← h.paths, hknown, hslash, hfits]
      rw [hyes, heq, Router.insert_new _ hknown]
      refine ⟨rfl, ?_⟩
      change r.snapshot ++ [(op.path, op.entry)] = _
      rw [List.map_append, h]
      rfl

/-- Whole sequences: the calls answered with OK are those that the abstract registry admits. -/
theorem holds_registerAll (h : Holds r accepted) (ops : List (Registration U S)) :
    Holds (r.registerAll ops) (ops.foldl enrol accepted) ∧
      ops.foldl enrol accepted = accepted ++ r.accepted ops := by
  induction ops generalizing r accepted with
  | nil => exact ⟨h, (List.append_nil _).symm⟩
  | cons op ops ih =>
      have hstep := holds_register h op
      rw [List.foldl_cons, Router.accepted, Router.registerAll, List.foldl_cons, enrol]
      split at hstep
      · next hyes =>
          obtain ⟨hholds, heq⟩ := ih hstep.2
          rw [if_pos hyes, if_pos hstep.1, heq]
          refine ⟨heq ▸ hholds, ?_⟩
          rw [List.append_assoc]
          rfl
      · next hno =>
          rw [if_neg hno, if_neg (by simp [hstep.1]), hstep.2]
          exact ih h

theorem holds_accepted (ops : List (Registration U S)) :
    Holds (Router.registerAll {} ops) (Router.accepted {} ops) := by
  obtain ⟨hholds, heq⟩ := holds_registerAll holds_empty ops
  rwa [heq, List.nil_append] at hholds

/-! ## What the list says -/

theorem admits_iff {op : Registration U S} :
    admits accepted op = true ↔
      op.path.head? = some 47 ∧ op.fits = true ∧ ∀ earlier ∈ accepted, earlier.path ≠ op.path := by
  simp [admits, and_assoc]

theorem entry_exact {op : Registration U S} (h : op.fits = true) : op.entry.Exact := by
  cases op with
  | unary path handler => exact .inl ⟨rfl, h, rfl⟩
  | stream path form handler =>
      simp only [fits, Bool.and_eq_true, bne_iff_ne] at h
      exact .inr ⟨h.2, rfl, h.1⟩

theorem fits_of_admitted {ops : List (Registration U S)} {op : Registration U S}
    (h : ∀ o ∈ accepted, o.fits = true) (hop : op ∈ ops.foldl enrol accepted) :
    op.fits = true := by
  induction ops generalizing accepted with
  | nil => exact h op hop
  | cons next ops ih =>
      refine ih (fun o ho => ?_) hop
      rw [enrol] at ho
      split at ho
      · next hyes =>
          rcases List.mem_append.mp ho with ho | ho
          · exact h o ho
          · rw [List.mem_singleton.mp ho]
            exact (admits_iff.mp hyes).2.1
      · exact h o ho

theorem exact_of_find {ops : List (Registration U S)} {p : Bytes} {e : HandlerEntry U S}
    (h : (Router.registerAll {} ops).find p = some e) : e.Exact := by
  obtain ⟨hholds, -⟩ := holds_registerAll holds_empty ops
  rw [hholds.find, Option.map_eq_some_iff] at h
  obtain ⟨op, hop, rfl⟩ := h
  exact entry_exact (fits_of_admitted (fun _ ho => by cases ho) (List.mem_of_find?_eq_some hop))

/-- What is found stays found, as it is. -/
theorem Holds.find_later (h : Holds r accepted) (later : List (Registration U S)) {p : Bytes}
    {e : HandlerEntry U S} (hfind : r.find p = some e) : (r.registerAll later).find p = some e := by
  obtain ⟨hholds, heq⟩ := holds_registerAll h later
  rw [heq] at hholds
  rw [h.find, Option.map_eq_some_iff] at hfind
  obtain ⟨op, hop, rfl⟩ := hfind
  rw [hholds.find, List.find?_append, hop]
  rfl

/-- The router is a registry in which the first registration of a path wins: after any calls
    `Find` answers with the first accepted registration of the path, and `size` counts the
    accepted ones. At every point a call is accepted exactly when path, handler and form are good
    and no accepted call came before it with the path; a rejected one changes nothing; and what was
    found before it is found as it was after all calls. -/
theorem first_registration_wins (ops : List (Registration U S)) :
    (∀ p, (Router.registerAll {} ops).find p =
      ((Router.accepted {} ops).find? fun op => op.path = p).map entry) ∧
    (Router.registerAll {} ops).size = (Router.accepted {} ops).length ∧
    (∀ p e, (Router.registerAll {} ops).find p = some e → e.Exact) ∧
    ∀ before op later, ops = before ++ op :: later →
      ((op.register (Router.registerAll {} before)).1.ok = true ↔
        op.path.head? = some 47 ∧ op.fits = true ∧
          ∀ earlier ∈ Router.accepted {} before, earlier.path ≠ op.path) ∧
      ((op.register (Router.registerAll {} before)).1.ok = false →
        (op.register (Router.registerAll {} before)).2 = Router.registerAll {} before) ∧
      ∀ p e, (Router.registerAll {} before).find p = some e →
        (Router.registerAll {} ops).find p = some e := by
  refine ⟨(holds_accepted ops).find, ?_, fun p e => exact_of_find, ?_⟩
  · have hlength := congrArg List.length (holds_accepted ops)
    rwa [List.length_map] at hlength
  · rintro before op later rfl
    have hbefore := holds_accepted (U := U) (S := S) before
    have hstep := holds_register hbefore op
    refine ⟨?_, ?_, fun p e hfind => ?_⟩
    · rw [← admits_iff]
      split at hstep
      · next hyes => exact ⟨fun _ => hyes, fun _ => hstep.1⟩
      · next hno => exact ⟨fun hok => by simp [hstep.1] at hok, fun hyes => absurd hyes hno⟩
    · intro hrefused
      split at hstep
      · cases hrefused.symm.trans hstep.1
      · exact hstep.2
    · rw [Router.registerAll, List.foldl_append]
      exact hbefore.find_later (op :: later) hfind

/-- A stream registration after a unary one with the same path is refused, and the unary handler
    is still the one that is found. -/
theorem first_registration_wins_twice :
    ((Registration.stream (str "/a/b") .bidi (some true)).register
        (Router.registerAll {} [.unary (str "/a/b") (some true)])).1.ok = false ∧
      (Router.registerAll {} [.unary (str "/a/b") (some true),
        .stream (str "/a/b") .bidi (some true)]).find (str "/a/b") =
        some { form := .unary, unary := some true } := by
  obtain ⟨hfind, -, -, hpoint⟩ := first_registration_wins
    [.unary (str "/a/b") (some true), .stream (str "/a/b") .bidi (some true)]
  obtain ⟨haccepted, -, -⟩ := hpoint [.unary (str "/a/b") (some true)] _ [] rfl
  refine ⟨?_, (hfind _).trans (by decide)⟩
  rw [Bool.eq_false_iff, Ne, haccepted]
  decide

end Urpc
