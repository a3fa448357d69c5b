/-
  Generated text: literals of a generator and the names put between them.

  A `Text` is a list of pieces, and `render` puts them together. How deep the braces are nested
  after a text depends only on its literals, as long as the names have no braces. So the depth of a
  text with arbitrary names can be computed from its pieces (`Text.depth`), and composed along `++`.

  * `balanced_of_depth`: a text that ends at the depth where it began is balanced, from left to right.
  * `Text.depth_append`, `Text.depth_add`: texts one after the other, and inside open braces.
  * `Text.SameBraces`: texts that do the same to the depth. The names do not matter, and a part that
    closes what it opens does not either.
  * `depth_render`: the pieces tell the depth of the text.
-/
import Urpc.Lib.Cxx

namespace Template

open Cxx

/-! ## Braces -/

/-- The depth of braces after a text that begins at depth `d`; `none` if it closes a brace that is
    not open. -/
def depth (d : Nat) : Bytes → Option Nat
  | [] => some d
  | 123 :: t => depth (d + 1) t
  | 125 :: t =>
      match d with
      | 0 => none
      | d + 1 => depth d t
  | _ :: t => depth d t

/-- No braces. -/
def Plain (t : Bytes) : Prop := 123 ∉ t ∧ 125 ∉ t

instance (t : Bytes) : Decidable (Plain t) := inferInstanceAs (Decidable (_ ∧ _))

theorem depth_cons_other {c : UInt8} (hopen : c ≠ 123) (hclose : c ≠ 125) (d : Nat) (t : Bytes) :
    depth d (c :: t) = depth d t := by
  rw [depth.eq_def]
  split
  · next h => cases h
  · next h => exact absurd (List.cons.inj h).1 hopen
  · next h => exact absurd (List.cons.inj h).1 hclose
  · next h => rw [(List.cons.inj h).2]

theorem depth_append (d : Nat) (s t : Bytes) :
    depth d (s ++ t) = (depth d s).bind fun e => depth e t := by
  induction s generalizing d with
  | nil => rfl
  | cons c s ih =>
      by_cases hopen : c = 123
      · subst hopen
        exact ih (d + 1)
      · by_cases hclose : c = 125
        · subst hclose
          cases d with
          | zero => rfl
          | succ d => exact ih d
        · rw [List.cons_append, depth_cons_other hopen hclose, depth_cons_other hopen hclose]
          exact ih d

theorem depth_add {d e : Nat} {t : Bytes} (h : depth d t = some e) (k : Nat) :
    depth (d + k) t = some (e + k) := by
  induction t generalizing d with
  | nil => exact congrArg some (congrArg (· + k) (Option.some.inj h))
  | cons c t ih =>
      by_cases hopen : c = 123
      · subst hopen
        have h' : depth (d + 1) t = some e := h
        have hk := ih h'
        rw [Nat.add_right_comm] at hk
        exact hk
      · by_cases hclose : c = 125
        · subst hclose
          cases d with
          | zero => cases h
          | succ d =>
              rw [Nat.add_right_comm]
              exact ih (d := d) h
        · rw [depth_cons_other hopen hclose] at h ⊢
          exact ih h

theorem depth_plain {t : Bytes} (h : Plain t) (d : Nat) : depth d t = some d := by
  induction t with
  | nil => rfl
  | cons c t ih =>
      have hopen : c ≠ 123 := fun heq => h.1 (heq ▸ List.mem_cons_self)
      have hclose : c ≠ 125 := fun heq => h.2 (heq ▸ List.mem_cons_self)
      rw [depth_cons_other hopen hclose]
      exact ih ⟨fun hmem => h.1 (List.mem_cons_of_mem _ hmem),
        fun hmem => h.2 (List.mem_cons_of_mem _ hmem)⟩

/-- What the depth counts. -/
theorem depth_count {d e : Nat} {t : Bytes} (h : depth d t = some e) :
    d + t.count 123 = e + t.count 125 := by
  induction t generalizing d with
  | nil =>
      cases h
      rfl
  | cons c t ih =>
      by_cases hopen : c = 123
      · subst hopen
        have := ih (d := d + 1) h
        rw [List.count_cons_self, List.count_cons_of_ne (by decide)]
        omega
      · by_cases hclose : c = 125
        · subst hclose
          cases d with
          | zero => cases h
          | succ d =>
              have := ih (d := d) h
              rw [List.count_cons_self, List.count_cons_of_ne (by decide)]
              omega
        · rw [depth_cons_other hopen hclose] at h
          rw [List.count_cons_of_ne hopen, List.count_cons_of_ne hclose]
          exact ih h

/-- From left to right a text never closes more than it has opened, and at the end as much. -/
def Balanced (t : Bytes) : Prop :=
  (∀ before, before <+: t → before.count 125 ≤ before.count 123) ∧ t.count 123 = t.count 125

theorem balanced_of_depth {t : Bytes} (h : depth 0 t = some 0) : Balanced t := by
  refine ⟨?_, by simpa using depth_count h⟩
  rintro before ⟨after, rfl⟩
  rw [depth_append] at h
  obtain ⟨e, he, -⟩ := Option.bind_eq_some_iff.mp h
  have := depth_count he
  omega

/-! ## Pieces -/

inductive Piece where
  | lit (s : String)
  | name (b : Bytes)
  deriving DecidableEq

instance : Coe String Piece := ⟨.lit⟩
instance : Coe Bytes Piece := ⟨.name⟩

abbrev Text := List Piece

/-- The bytes of a literal. -/
def utf8 (s : String) : Bytes := s.toByteArray.data.toList

def Piece.bytes : Piece → Bytes
  | .lit s => utf8 s
  | .name b => b

def render (t : Text) : Bytes := t.flatMap Piece.bytes

/-- The depth after a piece, if names have no braces. -/
def Piece.depth (d : Nat) : Piece → Option Nat
  | .lit s => Template.depth d (utf8 s)
  | .name _ => some d

namespace Text

def depth : Nat → Text → Option Nat
  | d, [] => some d
  | d, p :: t => (p.depth d).bind fun e => depth e t

def names : Text → List Bytes
  | [] => []
  | .lit _ :: t => names t
  | .name b :: t => b :: names t

theorem depth_append (d : Nat) (s t : Text) :
    depth d (s ++ t) = (depth d s).bind fun e => depth e t := by
  induction s generalizing d with
  | nil => rfl
  | cons p s ih =>
      rw [List.cons_append, depth, depth, Option.bind_assoc]
      exact congrArg _ (funext fun e => ih e)

theorem names_append (s t : Text) : names (s ++ t) = names s ++ names t := by
  induction s with
  | nil => rfl
  | cons p s ih =>
      cases p with
      | lit l => exact ih
      | name b => exact congrArg _ ih

/-- The names of texts one after the other. -/
theorem mem_names_flatten {ts : List Text} {b : Bytes} :
    b ∈ names ts.flatten ↔ ∃ t ∈ ts, b ∈ names t := by
  induction ts with
  | nil => simp [names]
  | cons t ts ih =>
      rw [List.flatten_cons, names_append, List.mem_append, ih]
      simp

theorem mem_names_flatMap {α : Type} {xs : List α} {f : α → Text} {b : Bytes} :
    b ∈ names (xs.flatMap f) ↔ ∃ x ∈ xs, b ∈ names (f x) := by
  rw [List.flatMap_def, mem_names_flatten]
  simp

theorem depth_add {d e : Nat} {t : Text} (h : depth d t = some e) (k : Nat) :
    depth (d + k) t = some (e + k) := by
  induction t generalizing d with
  | nil => exact congrArg some (congrArg (· + k) (Option.some.inj h))
  | cons p t ih =>
      obtain ⟨i, hp, ht⟩ := Option.bind_eq_some_iff.mp h
      have hpiece : p.depth (d + k) = some (i + k) := by
        cases p with
        | lit s => exact Template.depth_add hp k
        | name b =>
            cases hp
            rfl
      rw [depth, hpiece]
      exact ih ht

/-- The text with its names left out. -/
def blank (t : Text) : Text :=
  t.map fun
    | .lit s => .lit s
    | .name _ => .name []

theorem depth_blank (d : Nat) (t : Text) : t.blank.depth d = t.depth d := by
  induction t generalizing d with
  | nil => rfl
  | cons p t ih =>
      cases p with
      | lit s =>
          change ((Piece.lit s).depth d).bind (fun e => depth e (blank t)) = _
          rw [funext ih]
          rfl
      | name b => exact ih d

/-- The texts do the same to the depth. -/
def SameBraces (s t : Text) : Prop := ∀ d, s.depth d = t.depth d

theorem SameBraces.of_blank {s t : Text} (h : s.blank = t.blank) : SameBraces s t := fun d => by
  rw [← depth_blank, h, depth_blank]

/-- A text that closes what it opens, like no text. -/
theorem SameBraces.of_depth {t : Text} (h : t.depth 0 = some 0) : SameBraces t [] := fun d => by
  have hd := depth_add h d
  rwa [Nat.zero_add] at hd

theorem SameBraces.flatten {ss ts : List Text} (h : List.Forall₂ SameBraces ss ts) :
    SameBraces ss.flatten ts.flatten := by
  induction h with
  | nil => exact fun _ => rfl
  | cons h _ ih =>
      intro d
      rw [List.flatten_cons, List.flatten_cons, depth_append, depth_append, h d]
      exact congrArg _ (funext ih)

/-- A text inside the braces of a first and a last line. -/
theorem depth_enclosed {head members last : Text} (hhead : head.depth 0 = some 1)
    (hmembers : members.depth 0 = some 0) (hlast : last.depth 1 = some 0) :
    depth 0 (List.flatten [head, members, last]) = some 0 := by
  have hinside := SameBraces.of_depth hmembers 1
  rw [List.flatten_cons, depth_append, hhead, Option.bind_some, List.flatten_cons, depth_append,
    hinside, depth, Option.bind_some, List.flatten_cons, List.flatten_nil, List.append_nil, hlast]

/-- Texts one after the other. -/
theorem depth_flatMap {α : Type} {xs : List α} {f : α → Text} (h : ∀ x ∈ xs, depth 0 (f x) = some 0) :
    depth 0 (xs.flatMap f) = some 0 := by
  induction xs with
  | nil => rfl
  | cons x xs ih =>
      rw [List.flatMap_cons, depth_append, h x List.mem_cons_self]
      exact ih fun y hy => h y (List.mem_cons_of_mem _ hy)

end Text

theorem render_append (s t : Text) : render (s ++ t) = render s ++ render t := List.flatMap_append

theorem depth_render {t : Text} (h : ∀ b ∈ t.names, Plain b) (d : Nat) :
    depth d (render t) = t.depth d := by
  induction t generalizing d with
  | nil => rfl
  | cons p t ih =>
      rw [render, List.flatMap_cons, depth_append, Text.depth]
      cases p with
      | lit s => exact congrArg _ (funext fun e => ih h e)
      | name b =>
          have hpiece : depth d (Piece.name b).bytes = some d := depth_plain (h b List.mem_cons_self) d
          rw [hpiece]
          exact ih (fun b hb => h b (List.mem_cons_of_mem _ hb)) d

end Template
