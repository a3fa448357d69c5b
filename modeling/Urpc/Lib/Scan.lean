/-
  The language of the prefix parsers `std::stoi` and `std::stoull`.

  They skip white space, take one sign, read the decimal digits that follow and ignore the rest.

  * `Reads s neg n`: `s` is such a text, with the number `n`.
  * `scan_eq_some_iff`: these are the texts that are not rejected, each with its number.
  * `stoi_eq_some_iff`: the texts that `std::stoi` reads, and the numbers it makes of them.
  * `decimal_lt`: a number of `k` digits is below `10^k`.
-/
import Urpc.Lib.Cxx

namespace Cxx

/-- `s` is white space, an optional sign and the decimal digits of `n`, as many as there are, and
    then anything. -/
def Reads (s : Bytes) (neg : Bool) (n : Nat) : Prop :=
  ∃ blanks sg ds rest, s = blanks ++ (sg ++ (ds ++ rest)) ∧ blanks.all isSpace = true ∧
    (neg = true ∧ sg = [45] ∨ neg = false ∧ (sg = [43] ∨ sg = [])) ∧
    ds ≠ [] ∧ ds.all isDigit = true ∧ (∀ c ∈ rest.head?, isDigit c = false) ∧ decimal ds = n

theorem isSpace_of_isDigit {c : UInt8} (h : isDigit c = true) : isSpace c = false := by
  simp only [isDigit, Bool.and_eq_true, decide_eq_true_eq] at h
  simp only [isSpace, Bool.or_eq_false_iff, Bool.and_eq_false_iff, decide_eq_false_iff_not,
    beq_eq_false_iff_ne, UInt8.not_le]
  obtain ⟨h, -⟩ := h
  have : 48 ≤ c.toNat := h
  refine ⟨?_, .inr ?_⟩
  · rintro rfl
    exact absurd this (by decide)
  · show 13 < c.toNat
    omega

theorem dropWhile_blanks {blanks t : Bytes} (hb : blanks.all isSpace = true)
    (ht : ∀ c ∈ t.head?, isSpace c = false) : (blanks ++ t).dropWhile isSpace = t := by
  rw [List.dropWhile_append_of_pos (by simpa using hb)]
  cases t with
  | nil => rfl
  | cons c t => rw [List.dropWhile_cons_of_neg (by simp [ht c (by simp)])]

theorem takeWhile_digits {ds rest : Bytes} (hd : ds.all isDigit = true)
    (hr : ∀ c ∈ rest.head?, isDigit c = false) : (ds ++ rest).takeWhile isDigit = ds := by
  rw [List.takeWhile_append_of_pos (by simpa using hd)]
  cases rest with
  | nil => simp
  | cons c rest => rw [List.takeWhile_cons_of_neg (by simp [hr c (by simp)]), List.append_nil]

/-- A digit is no sign. -/
theorem sign_digit {ds rest : Bytes} (hne : ds ≠ []) (hd : ds.all isDigit = true) :
    sign (ds ++ rest) = (false, ds ++ rest) := by
  cases ds with
  | nil => exact absurd rfl hne
  | cons c ds =>
      have hc : isDigit c = true := by simpa using List.all_eq_true.mp hd c (by simp)
      rw [List.cons_append]
      unfold sign
      split
      · next h =>
        cases h
        exact absurd hc (by decide)
      · next h =>
        cases h
        exact absurd hc (by decide)
      · rfl

/-- What the optional sign of `s` is. -/
theorem sign_eq {s rest : Bytes} {neg : Bool} (h : sign s = (neg, rest)) :
    ∃ sg, s = sg ++ rest ∧ (neg = true ∧ sg = [45] ∨ neg = false ∧ (sg = [43] ∨ sg = [])) := by
  unfold sign at h
  split at h
  · cases h
    exact ⟨[45], rfl, .inl ⟨rfl, rfl⟩⟩
  · cases h
    exact ⟨[43], rfl, .inr ⟨rfl, .inl rfl⟩⟩
  · cases h
    exact ⟨[], rfl, .inr ⟨rfl, .inr rfl⟩⟩

/-- The language of the prefix parsers. -/
theorem scan_eq_some_iff {s : Bytes} {neg : Bool} {n : Nat} :
    scan s = some (neg, n) ↔ Reads s neg n := by
  constructor
  · intro h
    cases hs : sign (s.dropWhile isSpace) with
    | mk neg' t =>
      simp only [scan, hs, List.isEmpty_iff] at h
      split at h
      · cases h
      · next hne =>
        cases h
        obtain ⟨sg, hsplit, hsg⟩ := sign_eq hs
        refine ⟨s.takeWhile isSpace, sg, t.takeWhile isDigit, t.dropWhile isDigit, ?_, ?_, hsg,
          hne, ?_, ?_, rfl⟩
        · rw [List.takeWhile_append_dropWhile, ← hsplit, List.takeWhile_append_dropWhile]
        · exact List.all_takeWhile
        · exact List.all_takeWhile
        · intro c hc
          have hnot := List.head?_dropWhile_not isDigit t
          rw [hc] at hnot
          simpa using hnot
  · rintro ⟨blanks, sg, ds, rest, rfl, hb, hsg, hne, hd, hr, rfl⟩
    have hhead : ∀ c ∈ (sg ++ (ds ++ rest)).head?, isSpace c = false := by
      intro c hc
      rcases hsg with ⟨-, rfl⟩ | ⟨-, rfl | rfl⟩
      · cases hc
        decide
      · cases hc
        decide
      · rw [List.nil_append, List.head?_append_of_ne_nil _ hne] at hc
        exact isSpace_of_isDigit (List.all_eq_true.mp hd c (List.mem_of_mem_head? hc))
    have hsign : sign (sg ++ (ds ++ rest)) = (neg, ds ++ rest) := by
      rcases hsg with ⟨rfl, rfl⟩ | ⟨rfl, rfl | rfl⟩
      · rfl
      · rfl
      · rw [List.nil_append]
        exact sign_digit hne hd
    simp only [scan, dropWhile_blanks hb hhead, hsign, takeWhile_digits hd hr]
    simp [hne]

/-- A text of digits is read as a whole. -/
theorem reads_digits {ds : Bytes} (hne : ds ≠ []) (hd : ds.all isDigit = true) :
    Reads ds false (decimal ds) :=
  ⟨[], [], ds, [], by simp, rfl, .inr ⟨rfl, .inr rfl⟩, hne, hd, by simp, rfl⟩

theorem decimal_snoc (ds : Bytes) (d : UInt8) :
    decimal (ds ++ [d]) = decimal ds * 10 + (d.toNat - 48) := by
  simp [decimal]

theorem decimal_lt {ds : Bytes} (hd : ds.all isDigit = true) : decimal ds < 10 ^ ds.length := by
  induction ds using List.reverseRecOn with
  | nil => decide
  | append_singleton ds d ih =>
      rw [List.all_append, Bool.and_eq_true] at hd
      have hlt := ih hd.1
      have hdigit : d.toNat ≤ 57 := by
        have h := hd.2
        simp only [List.all_cons, List.all_nil, isDigit, Bool.and_true, Bool.and_eq_true,
          decide_eq_true_eq] at h
        exact h.2
      rw [decimal_snoc, List.length_append, List.length_singleton, Nat.pow_succ]
      omega

/-! ## `std::stoi` -/

/-- `s` is a decimal numeral of `n`, with nothing before or after it. -/
def Numeral (s : Bytes) (n : Nat) : Prop := s ≠ [] ∧ s.all isDigit = true ∧ decimal s = n

/-- The number of a sign and a magnitude. -/
def intOf (neg : Bool) (n : Nat) : Int := if neg then -(n : Int) else n

/-- The range of a 32-bit `int`. -/
def IntRange (v : Int) : Prop := -2 ^ 31 ≤ v ∧ v < 2 ^ 31

instance (v : Int) : Decidable (IntRange v) := inferInstanceAs (Decidable (_ ∧ _))

/-- A text is read in one way only. -/
theorem Reads.unique {s : Bytes} {neg neg' : Bool} {n n' : Nat} (h : Reads s neg n)
    (h' : Reads s neg' n') : neg = neg' ∧ n = n' := by
  have heq := (scan_eq_some_iff.mpr h).symm.trans (scan_eq_some_iff.mpr h')
  cases heq
  exact ⟨rfl, rfl⟩

theorem stoi_of_reads {s : Bytes} {neg : Bool} {n : Nat} (h : Reads s neg n)
    (hrange : IntRange (intOf neg n)) : stoi s = some (intOf neg n) := by
  rw [stoi, scan_eq_some_iff.mpr h]
  exact if_pos hrange

theorem stoi_eq_some_iff {s : Bytes} {v : Int} :
    stoi s = some v ↔ ∃ neg n, Reads s neg n ∧ IntRange (intOf neg n) ∧ v = intOf neg n := by
  constructor
  · intro h
    unfold stoi at h
    split at h
    · cases h
    · next neg n hscan =>
        change (if IntRange (intOf neg n) then some (intOf neg n) else none) = some v at h
        split at h
        · next hrange => exact ⟨neg, n, scan_eq_some_iff.mp hscan, hrange, by cases h; rfl⟩
        · cases h
  · rintro ⟨neg, n, hreads, hrange, rfl⟩
    exact stoi_of_reads hreads hrange

theorem Numeral.reads {s : Bytes} {n : Nat} (h : Numeral s n) : Reads s false n :=
  h.2.2 ▸ reads_digits h.1 h.2.1

theorem Numeral.stoi {s : Bytes} {n : Nat} (h : Numeral s n) (hn : n < 2 ^ 31) :
    stoi s = some (n : Int) := by
  refine stoi_of_reads h.reads ⟨?_, ?_⟩
  · simp only [intOf]
    omega
  · simp only [intOf]
    omega

end Cxx
