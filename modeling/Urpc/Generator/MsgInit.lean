/-
  The symbol of a message table, `MsgInitOf` (`codegen_model.cc`).

  The symbol begins with the package of the file that refers to the message, as it is written, and goes
  on with the name of the message as seen from there, its dots replaced. So a dotted package is no C
  identifier, files of different packages never agree on a symbol, and names that differ only in dots
  and underscores have one symbol; so has `p.A`, seen from `p`, and a message `A` without a package.

  Proved: `msg_init_sound_iff`.
-/
import Urpc.Lib.Template

namespace Urpc.Generator

open Cxx Template

def replaceAll (s : Bytes) (src dst : UInt8) : Bytes := s.map fun c => if c = src then dst else c

def cppTypeOf (fullName : Bytes) : Bytes := replaceAll fullName 46 95

def msgInitOf (package fullName : Bytes) : Bytes :=
  let rest :=
    if package ≠ [] ∧ (package ++ utf8 ".").isPrefixOf fullName = true then
      fullName.drop (package.length + 1)
    else fullName
  package ++ utf8 "__" ++ replaceAll rest 46 95 ++ utf8 "_msg_init"

/-! ## Names -/

/-- Letters and the underscore. -/
def isLetter (c : UInt8) : Bool := (65 ≤ c && c ≤ 90) || (97 ≤ c && c ≤ 122) || c == 95

def isWord (c : UInt8) : Bool := isLetter c || isDigit c

/-- An identifier of C. -/
def isIdentifier : Bytes → Bool
  | [] => false
  | c :: t => isLetter c && t.all isWord

/-- Identifiers with dots between them: a package, or the full name of a message. -/
inductive DottedName : Bytes → Prop
  | single {b : Bytes} (h : isIdentifier b = true) : DottedName b
  | dot {b t : Bytes} (h : isIdentifier b = true) (ht : DottedName t) : DottedName (b ++ 46 :: t)

/-- The name `r` of the message `fullName`, as seen from the package. -/
def Seen (package fullName r : Bytes) : Prop :=
  fullName = package ++ 46 :: r ∨ r = fullName ∧ ¬ package ++ [46] <+: fullName

/-- The same, but for dots in the place of underscores. -/
def SameUpToDots : Bytes → Bytes → Prop :=
  List.Forall₂ fun a b => a = b ∨ (a = 46 ∨ a = 95) ∧ (b = 46 ∨ b = 95)

theorem isIdentifier_cons {b : Bytes} (h : isIdentifier b = true) :
    ∃ c t, b = c :: t ∧ isLetter c = true ∧ t.all isWord = true := by
  cases b with
  | nil => cases h
  | cons c t =>
      obtain ⟨hc, ht⟩ := Bool.and_eq_true_iff.mp h
      exact ⟨c, t, rfl, hc, ht⟩

theorem isWord_of_mem_identifier {b : Bytes} (h : isIdentifier b = true) {c : UInt8} (hc : c ∈ b) :
    isWord c = true := by
  obtain ⟨first, t, rfl, hfirst, ht⟩ := isIdentifier_cons h
  rcases List.mem_cons.mp hc with rfl | hc
  · rw [isWord, hfirst, Bool.true_or]
  · exact List.all_eq_true.mp ht c hc

theorem DottedName.cons {b : Bytes} (h : DottedName b) : ∃ c t, b = c :: t ∧ isLetter c = true := by
  cases h with
  | single h =>
      obtain ⟨c, t, rfl, hc, -⟩ := isIdentifier_cons h
      exact ⟨c, t, rfl, hc⟩
  | dot h _ =>
      obtain ⟨c, t, rfl, hc, -⟩ := isIdentifier_cons h
      exact ⟨c, _, rfl, hc⟩

theorem DottedName.ne_nil {b : Bytes} (h : DottedName b) : b ≠ [] := by
  obtain ⟨c, t, rfl, -⟩ := h.cons
  exact List.cons_ne_nil c t

theorem DottedName.isWord {b : Bytes} (h : DottedName b) {c : UInt8} (hc : c ∈ b) :
    isWord c = true ∨ c = 46 := by
  induction h with
  | single h => exact .inl (isWord_of_mem_identifier h hc)
  | dot h _ ih =>
      rcases List.mem_append.mp hc with hc | hc
      · exact .inl (isWord_of_mem_identifier h hc)
      · rcases List.mem_cons.mp hc with rfl | hc
        · exact .inr rfl
        · exact ih hc

theorem seen_exists (package fullName : Bytes) : ∃ r, Seen package fullName r := by
  by_cases h : package ++ [46] <+: fullName
  · obtain ⟨r, rfl⟩ := h
    exact ⟨r, .inl (by rw [List.append_assoc, List.singleton_append])⟩
  · exact ⟨fullName, .inr ⟨rfl, h⟩⟩

theorem Seen.subset {package fullName r : Bytes} (h : Seen package fullName r) : r ⊆ fullName := by
  intro c hc
  rcases h with rfl | ⟨rfl, -⟩
  · exact List.mem_append_right _ (List.mem_cons_of_mem _ hc)
  · exact hc

theorem msgInitOf_eq {package fullName r : Bytes} (hne : package ≠ [])
    (h : Seen package fullName r) :
    msgInitOf package fullName = package ++ utf8 "__" ++ cppTypeOf r ++ utf8 "_msg_init" := by
  have hdot : utf8 "." = [46] := rfl
  rw [msgInitOf, cppTypeOf, hdot]
  rcases h with rfl | ⟨rfl, hout⟩
  · have hin : (package ++ [46]).isPrefixOf (package ++ 46 :: r) = true :=
      List.isPrefixOf_iff_prefix.mpr ⟨r, by rw [List.append_assoc, List.singleton_append]⟩
    have hdrop : (package ++ 46 :: r).drop (package.length + 1) = r := by
      rw [← List.drop_drop, List.drop_left, List.drop_one, List.tail_cons]
    rw [if_pos ⟨hne, hin⟩, hdrop]
  · rw [if_neg fun hin => hout (List.isPrefixOf_iff_prefix.mp hin.2)]

/-! ## The three parts -/

theorem cppTypeOf_eq_iff {r r' : Bytes} : cppTypeOf r = cppTypeOf r' ↔ SameUpToDots r r' := by
  have hone : ∀ a b : UInt8, ((if a = 46 then 95 else a) = if b = 46 then 95 else b) ↔
      a = b ∨ (a = 46 ∨ a = 95) ∧ (b = 46 ∨ b = 95) := by
    intro a b
    by_cases ha : a = 46 <;> by_cases hb : b = 46 <;> grind
  induction r generalizing r' with
  | nil =>
      cases r' with
      | nil => exact iff_of_true rfl .nil
      | cons b r' => exact iff_of_false nofun nofun
  | cons a r ih =>
      cases r' with
      | nil => exact iff_of_false nofun nofun
      | cons b r' =>
          rw [SameUpToDots, List.forall₂_cons, ← hone]
          change _ :: cppTypeOf r = _ :: cppTypeOf r' ↔ _
          rw [List.cons.injEq]
          exact and_congr_right fun _ => ih

theorem isWord_cppTypeOf {r : Bytes} (h : ∀ c ∈ r, isWord c = true ∨ c = 46) {c : UInt8}
    (hc : c ∈ cppTypeOf r) : isWord c = true := by
  obtain ⟨a, ha, rfl⟩ := List.mem_map.mp hc
  split
  · decide
  · next hne => exact (h a ha).resolve_right hne

/-- The package goes into the symbol as it is. -/
theorem isIdentifier_msgInitOf_iff {package fullName : Bytes} (hpackage : DottedName package)
    (hname : DottedName fullName) :
    isIdentifier (msgInitOf package fullName) = true ↔ 46 ∉ package := by
  obtain ⟨r, hseen⟩ := seen_exists package fullName
  rw [msgInitOf_eq hpackage.ne_nil hseen]
  constructor
  · intro hid hdot
    have hmem : (46 : UInt8) ∈ package ++ utf8 "__" ++ cppTypeOf r ++ utf8 "_msg_init" :=
      List.mem_append_left _ (List.mem_append_left _ (List.mem_append_left _ hdot))
    exact absurd (isWord_of_mem_identifier hid hmem) (by decide)
  · intro hdot
    obtain ⟨c, t, rfl, hc⟩ := hpackage.cons
    refine Bool.and_eq_true_iff.mpr ⟨hc, List.all_eq_true.mpr fun a hmem => ?_⟩
    have ha : a ∈ t ++ utf8 "__" ++ cppTypeOf r ++ utf8 "_msg_init" := hmem
    have hfixed : ∀ a ∈ utf8 "__" ++ utf8 "_msg_init", isWord a = true :=
      List.all_eq_true.mp (by decide +kernel)
    simp only [List.mem_append] at ha hfixed
    rcases ha with ((ha | ha) | ha) | ha
    · refine (hpackage.isWord (List.mem_cons_of_mem _ ha)).resolve_right fun heq => ?_
      exact hdot (heq ▸ List.mem_cons_of_mem _ ha)
    · exact hfixed a (.inl ha)
    · exact isWord_cppTypeOf (fun c hc => hname.isWord (hseen.subset hc)) ha
    · exact hfixed a (.inr ha)

/-- A longer package goes on with a dot where the symbol of the shorter one has an underscore. -/
theorem package_not_longer {p q r r' s s' : Bytes} (hname : p ++ 46 :: r = p ++ q ++ 46 :: r')
    (hsymbol : p ++ 95 :: s = p ++ q ++ 95 :: s') : q = [] := by
  rw [List.append_assoc, List.append_cancel_left_eq] at hname hsymbol
  cases q with
  | nil => rfl
  | cons c q =>
      have hdot := (List.cons.inj hname).1
      have hunder := (List.cons.inj hsymbol).1
      exact absurd (hdot.trans hunder.symm) (by decide)

theorem package_eq_of_symbol {p p' r r' s s' : Bytes} (hname : p ++ 46 :: r = p' ++ 46 :: r')
    (hsymbol : p ++ 95 :: s = p' ++ 95 :: s') : p = p' := by
  rcases List.append_eq_append_iff.mp hname with ⟨q, rfl, -⟩ | ⟨q, rfl, -⟩
  · rw [package_not_longer hname hsymbol, List.append_nil]
  · rw [package_not_longer hname.symm hsymbol.symm, List.append_nil]

theorem msgInitOf_package_iff {package package' fullName : Bytes} (hne : package ≠ [])
    (hne' : package' ≠ []) :
    msgInitOf package fullName = msgInitOf package' fullName ↔ package = package' := by
  constructor
  swap
  · rintro rfl
    rfl
  intro heq
  obtain ⟨r, hseen⟩ := seen_exists package fullName
  obtain ⟨r', hseen'⟩ := seen_exists package' fullName
  rw [msgInitOf_eq hne hseen, msgInitOf_eq hne' hseen', List.append_cancel_right_eq] at heq
  have hlength := congrArg List.length heq
  simp only [List.length_append, cppTypeOf, replaceAll, List.length_map] at hlength
  rcases hseen with hin | ⟨rfl, -⟩
  · rcases hseen' with hin' | ⟨rfl, -⟩
    · simp only [List.append_assoc] at heq
      exact package_eq_of_symbol (hin.symm.trans hin') heq
    · -- one symbol is the package longer than the other
      rw [hin, List.length_append, List.length_cons] at hlength
      omega
  · rcases hseen' with hin' | ⟨rfl, -⟩
    · rw [hin', List.length_append, List.length_cons] at hlength
      omega
    · rw [List.append_assoc, List.append_assoc, List.append_cancel_right_eq] at heq
      exact heq

theorem msgInitOf_name_iff {package fullName fullName' r r' : Bytes} (hne : package ≠ [])
    (h : Seen package fullName r) (h' : Seen package fullName' r') :
    msgInitOf package fullName = msgInitOf package fullName' ↔ SameUpToDots r r' := by
  rw [msgInitOf_eq hne h, msgInitOf_eq hne h', List.append_cancel_right_eq,
    List.append_cancel_left_eq, cppTypeOf_eq_iff]

/-- For a package and a full name of identifiers, the symbol is an identifier, is the same from another
    package, and differs from that of another name, exactly if the package has no dot, the other
    package is the same, and the names as seen from it differ in more than dots and underscores. -/
theorem msg_init_sound_iff {package package' fullName fullName' : Bytes}
    (hpackage : DottedName package) (hpackage' : DottedName package') (hname : DottedName fullName) :
    (isIdentifier (msgInitOf package fullName) = true ∧
        msgInitOf package fullName = msgInitOf package' fullName ∧
        (fullName ≠ fullName' → msgInitOf package fullName ≠ msgInitOf package fullName')) ↔
      46 ∉ package ∧ package = package' ∧
        (fullName ≠ fullName' → ∀ r r', Seen package fullName r → Seen package fullName' r' →
          ¬ SameUpToDots r r') := by
  rw [isIdentifier_msgInitOf_iff hpackage hname,
    msgInitOf_package_iff hpackage.ne_nil hpackage'.ne_nil]
  refine and_congr_right fun _ => and_congr_right fun _ => forall_congr' fun _ => ?_
  constructor
  · intro hdiffer r r' h h'
    exact (not_congr (msgInitOf_name_iff hpackage.ne_nil h h')).mp hdiffer
  · intro hapart
    obtain ⟨r, h⟩ := seen_exists package fullName
    obtain ⟨r', h'⟩ := seen_exists package fullName'
    exact (not_congr (msgInitOf_name_iff hpackage.ne_nil h h')).mpr (hapart r r' h h')

/-- Two messages of one package without dots. -/
theorem msg_init_sound_echo :
    46 ∉ utf8 "p" ∧ utf8 "p" = utf8 "p" ∧
      (utf8 "p.Ask" ≠ utf8 "p.Echo" → ∀ r r', Seen (utf8 "p") (utf8 "p.Ask") r →
        Seen (utf8 "p") (utf8 "p.Echo") r' → ¬ SameUpToDots r r') :=
  (msg_init_sound_iff (.single (by decide)) (.single (by decide))
    (.dot (b := utf8 "p") (t := utf8 "Ask") (by decide) (.single (by decide)))).mp (by decide)

/-- A dotted package gives no identifier, the same message another symbol from another package, and
    a nested and a top-level message one symbol. -/
theorem msg_init_ambiguous :
    isIdentifier (msgInitOf (utf8 "a.b") (utf8 "a.b.M")) = false ∧
      msgInitOf (utf8 "p") (utf8 "p.M") ≠ msgInitOf (utf8 "q") (utf8 "p.M") ∧
      msgInitOf (utf8 "p") (utf8 "p.A.B") = msgInitOf (utf8 "p") (utf8 "p.A_B") ∧
      msgInitOf (utf8 "p") (utf8 "p.A") = msgInitOf (utf8 "p") (utf8 "A") := by
  decide

end Urpc.Generator
