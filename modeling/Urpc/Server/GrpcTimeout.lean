/-
  The `grpc-timeout` header: `ParseGrpcTimeout`, and the deadline that `OnHeadersComplete` arms.

  The header is one to eight decimal digits and a unit. `ParseGrpcTimeout` hands all but the last
  character to `std::stoull`, which also takes blanks, a sign, text after the digits and numbers up to
  `2^64 - 1`, and a result of 0 stands for "no timeout". So a text that is no timeout is misread
  whenever `stoull` finds a number in it that does not vanish in milliseconds; and a timeout below one
  millisecond arms no deadline.

  Proved:
  * `grpcTimeout_exact_iff`: `ParseGrpcTimeout` is exact for the well-formed texts, and 0 for the
    others unless they are misread.
  * `deadline_monotone_iff`: of two positive timeouts the shorter one arms a deadline, and no later
    one than the other, exactly if it is at least a millisecond.
-/
import Urpc.Lib.Scan
import Urpc.Server.Stream

namespace Urpc.Server

open Cxx

/-! ## The format -/

/-- The units of the format, in nanoseconds. -/
def unitNanos : UInt8 → Option Nat
  | 72 => some 3600000000000      -- 'H'
  | 77 => some 60000000000        -- 'M'
  | 83 => some 1000000000         -- 'S'
  | 109 => some 1000000           -- 'm'
  | 117 => some 1000              -- 'u'
  | 110 => some 1                 -- 'n'
  | _ => none

/-- `v` is one to eight digits and a unit, and stands for `nanos` nanoseconds. -/
def Denotes (v : Bytes) (nanos : Nat) : Prop :=
  ∃ ds unit scale, v = ds ++ [unit] ∧ ds ≠ [] ∧ ds.length ≤ 8 ∧ ds.all isDigit = true ∧
    unitNanos unit = some scale ∧ nanos = decimal ds * scale

/-- `ParseGrpcTimeout` is exact on `v`: the floor of the duration in milliseconds, reached without
    wrap-around, for a timeout, and 0 for every other text. -/
def ExactTimeout (v : Bytes) : Prop :=
  (∀ ds unit scale, v = ds ++ [unit] → ds ≠ [] → ds.length ≤ 8 → ds.all isDigit = true →
      unitNanos unit = some scale →
      parseGrpcTimeout v = decimal ds * scale / 1000000 ∧ decimal ds * 3600000 < 2 ^ 64) ∧
    ((∀ nanos, ¬ Denotes v nanos) → parseGrpcTimeout v = 0)

/-- A 64-bit number of this unit is not 0 in milliseconds, counted modulo `2^64`. -/
def Lasts (n : Nat) : UInt8 → Prop
  | 72 => ¬ 2 ^ 57 ∣ n            -- 'H': 3600000 = 2^7 * 28125
  | 77 => ¬ 2 ^ 59 ∣ n            -- 'M': 60000 = 2^5 * 1875
  | 83 => ¬ 2 ^ 61 ∣ n            -- 'S': 1000 = 2^3 * 125
  | 109 => 0 < n                  -- 'm'
  | 117 => 1000 ≤ n               -- 'u'
  | 110 => 1000000 ≤ n            -- 'n'
  | _ => False

/-- The number that `stoull` makes of a sign and a magnitude. -/
def signed (neg : Bool) (n : Nat) : Nat := if neg then (2 ^ 64 - n) % 2 ^ 64 else n

/-- Before its last character `v` begins with a number, maybe after blanks and a sign, and in the
    unit that is its last character that number lasts. -/
def Misread (v : Bytes) : Prop :=
  ∃ text unit neg n, v = text ++ [unit] ∧ Reads text neg n ∧ n < 2 ^ 64 ∧
    Lasts (signed neg n) unit

/-! ## The number and its unit -/

theorem stoull_eq_some_iff {text : Bytes} {m : Nat} :
    stoull text = some m ↔ ∃ neg n, Reads text neg n ∧ n < 2 ^ 64 ∧ m = signed neg n := by
  constructor
  · intro h
    unfold stoull at h
    cases hs : scan text with
    | none =>
        rw [hs] at h
        cases h
    | some r =>
        obtain ⟨neg, n⟩ := r
        simp only [hs, Option.ite_none_right_eq_some, Option.some.injEq] at h
        exact ⟨neg, n, scan_eq_some_iff.mp hs, h.1, h.2.symm⟩
  · rintro ⟨neg, n, hr, hlt, rfl⟩
    simp only [stoull, scan_eq_some_iff.mpr hr, if_pos hlt, signed]

/-- The `switch` of `ParseGrpcTimeout`. -/
def millis (n : Nat) : UInt8 → Nat
  | 72 => n * 3600000 % 2 ^ 64
  | 77 => n * 60000 % 2 ^ 64
  | 83 => n * 1000 % 2 ^ 64
  | 109 => n
  | 117 => n / 1000
  | 110 => n / 1000000
  | _ => 0

/-- `stoull` rejects the empty text, so the length test changes nothing. -/
theorem parseGrpcTimeout_snoc (text : Bytes) (unit : UInt8) :
    parseGrpcTimeout (text ++ [unit]) = ((stoull text).map (millis · unit)).getD 0 := by
  cases text with
  | nil => rfl
  | cons c text =>
      have hlen : ¬ (c :: text ++ [unit]).length < 2 := by simp
      rw [parseGrpcTimeout, if_neg hlen, List.dropLast_concat, List.getLast?_concat]
      cases stoull (c :: text) with
      | none => rfl
      | some n =>
          simp only [Option.map_some, Option.getD_some]
          unfold millis
          split <;> simp_all

/-- A factor `2^k * odd` takes `k` bits off. -/
theorem two_pow_dvd_mul (n k odd : Nat) (hk : k ≤ 64) (hodd : odd % 2 = 1) :
    2 ^ 64 ∣ n * (2 ^ k * odd) ↔ 2 ^ (64 - k) ∣ n := by
  have hsplit : 2 ^ 64 = 2 ^ k * 2 ^ (64 - k) := by rw [← pow_add, Nat.add_sub_cancel' hk]
  have hcop : Nat.Coprime (2 ^ (64 - k)) odd := by
    apply Nat.Coprime.pow_left
    rw [Nat.coprime_two_left, Nat.odd_iff]
    exact hodd
  rw [hsplit, Nat.mul_left_comm, Nat.mul_dvd_mul_iff_left (Nat.two_pow_pos k)]
  exact ⟨fun h => hcop.dvd_of_dvd_mul_right h, fun h => Dvd.dvd.mul_right h odd⟩

theorem millis_ne_zero_iff (n : Nat) (unit : UInt8) : millis n unit ≠ 0 ↔ Lasts n unit := by
  unfold millis Lasts
  split
  · rw [ne_eq, ← Nat.dvd_iff_mod_eq_zero]
    exact not_congr (two_pow_dvd_mul n 7 28125 (by decide) (by decide))
  · rw [ne_eq, ← Nat.dvd_iff_mod_eq_zero]
    exact not_congr (two_pow_dvd_mul n 5 1875 (by decide) (by decide))
  · rw [ne_eq, ← Nat.dvd_iff_mod_eq_zero]
    exact not_congr (two_pow_dvd_mul n 3 125 (by decide) (by decide))
  · exact Nat.pos_iff_ne_zero.symm
  · rw [ne_eq, Nat.div_eq_zero_iff]
    omega
  · rw [ne_eq, Nat.div_eq_zero_iff]
    omega
  · simp

/-- What is read as a timeout, whatever it is. -/
theorem parseGrpcTimeout_ne_zero_iff (v : Bytes) : parseGrpcTimeout v ≠ 0 ↔ Misread v := by
  cases v using List.reverseRecOn with
  | nil => simp [parseGrpcTimeout, Misread]
  | append_singleton text unit =>
      rw [parseGrpcTimeout_snoc]
      constructor
      · intro h
        cases hs : stoull text with
        | none => simp [hs] at h
        | some m =>
            obtain ⟨neg, n, hr, hlt, rfl⟩ := stoull_eq_some_iff.mp hs
            simp only [hs, Option.map_some, Option.getD_some] at h
            exact ⟨text, unit, neg, n, rfl, hr, hlt, (millis_ne_zero_iff _ _).mp h⟩
      · rintro ⟨text', unit', neg, n, heq, hr, hlt, hl⟩
        obtain ⟨rfl, hu⟩ := List.append_inj' heq rfl
        cases hu
        rw [stoull_eq_some_iff.mpr ⟨neg, n, hr, hlt, rfl⟩]
        exact (millis_ne_zero_iff _ _).mpr hl

/-! ## Well-formed timeouts -/

theorem decimal_lt_of_short {ds : Bytes} (hlen : ds.length ≤ 8) (hd : ds.all isDigit = true) :
    decimal ds < 10 ^ 8 :=
  Nat.lt_of_lt_of_le (decimal_lt hd) (Nat.pow_le_pow_right (by decide) hlen)

/-- Eight digits do not reach `2^64`, in no unit. -/
theorem millis_of_short {n scale : Nat} {unit : UInt8} (hn : n < 10 ^ 8)
    (hu : unitNanos unit = some scale) : millis n unit = n * scale / 1000000 := by
  unfold unitNanos at hu
  unfold millis
  split at hu
  · cases hu
    show n * 3600000 % 2 ^ 64 = n * 3600000000000 / 1000000
    omega
  · cases hu
    show n * 60000 % 2 ^ 64 = n * 60000000000 / 1000000
    omega
  · cases hu
    show n * 1000 % 2 ^ 64 = n * 1000000000 / 1000000
    omega
  · cases hu
    show n = n * 1000000 / 1000000
    omega
  · cases hu
    show n / 1000 = n * 1000 / 1000000
    omega
  · cases hu
    show n / 1000000 = n * 1 / 1000000
    omega
  · cases hu

theorem parseGrpcTimeout_denotes {v : Bytes} {nanos : Nat} (h : Denotes v nanos) :
    parseGrpcTimeout v = nanos / 1000000 := by
  obtain ⟨ds, unit, scale, rfl, hne, hlen, hd, hu, rfl⟩ := h
  have hlt := decimal_lt_of_short hlen hd
  have hs : stoull ds = some (decimal ds) :=
    stoull_eq_some_iff.mpr ⟨false, _, reads_digits hne hd, by omega, rfl⟩
  rw [parseGrpcTimeout_snoc, hs]
  exact millis_of_short hlt hu

theorem Denotes.shape {v : Bytes} {nanos : Nat} (h : Denotes v nanos) :
    v.length ≤ 9 ∧ v.dropLast.all isDigit = true := by
  obtain ⟨ds, unit, scale, rfl, -, hlen, hd, -⟩ := h
  rw [List.dropLast_concat, List.length_append, List.length_singleton]
  exact ⟨by omega, hd⟩

/-- `ParseGrpcTimeout` is exact on a text if and only if the text is a timeout or is not misread as
    one. -/
theorem grpcTimeout_exact_iff (v : Bytes) :
    ExactTimeout v ↔ (∃ nanos, Denotes v nanos) ∨ ¬ Misread v := by
  constructor
  · intro h
    by_cases hv : ∃ nanos, Denotes v nanos
    · exact .inl hv
    · have hzero := h.2 (not_exists.mp hv)
      exact .inr fun hm => (parseGrpcTimeout_ne_zero_iff v).mpr hm hzero
  · intro h
    refine ⟨?_, ?_⟩
    · intro ds unit scale hv hne hlen hd hu
      have hlt := decimal_lt_of_short hlen hd
      exact ⟨parseGrpcTimeout_denotes ⟨ds, unit, scale, hv, hne, hlen, hd, hu, rfl⟩, by omega⟩
    · intro hnot
      rcases h with ⟨nanos, hv⟩ | hm
      · exact absurd hv (hnot nanos)
      · by_contra hz
        exact hm ((parseGrpcTimeout_ne_zero_iff v).mp hz)

/-- A sign, a blank, text after the digits and a ninth digit are accepted, and thirteen digits of
    hours wrap around to 34 minutes. -/
theorem grpcTimeout_misread :
    parseGrpcTimeout (str "-1m") = 2 ^ 64 - 1 ∧ ¬ ExactTimeout (str "-1m") ∧
    parseGrpcTimeout (str " 7m") = 7 ∧ ¬ ExactTimeout (str " 7m") ∧
    parseGrpcTimeout (str "7xS") = 7000 ∧ ¬ ExactTimeout (str "7xS") ∧
    parseGrpcTimeout (str "123456789m") = 123456789 ∧ ¬ ExactTimeout (str "123456789m") ∧
    parseGrpcTimeout (str "5124095576031H") = 2048384 ∧ ¬ ExactTimeout (str "5124095576031H") := by
  have hbad : ∀ v : Bytes, ¬ (v.length ≤ 9 ∧ v.dropLast.all isDigit = true) →
      parseGrpcTimeout v ≠ 0 → ¬ ExactTimeout v := by
    intro v hv hne h
    exact hne (h.2 fun nanos hd => hv hd.shape)
  exact ⟨by decide, hbad _ (by decide) (by decide), by decide, hbad _ (by decide) (by decide),
    by decide, hbad _ (by decide) (by decide), by decide, hbad _ (by decide) (by decide),
    by decide, hbad _ (by decide) (by decide)⟩

/-! ## The deadline -/

/-- The delay that `OnHeadersComplete` passes to `SetTimer`, if it calls it. -/
def armedDelay (headers : HeaderMap) : Option Nat :=
  match find headers "grpc-timeout" with
  | none => none
  | some v => if parseGrpcTimeout v > 0 then some (parseGrpcTimeout v) else none

/-- `OnHeadersComplete` does not reject the block. -/
def wellAddressed (headers : HeaderMap) : Bool :=
  match find headers "content-type", find headers ":path" with
  | some ct, some _ => kContentType.isPrefixOf ct
  | _, _ => false

theorem armDeadline_timers (s : State) (k : Call) (headers : HeaderMap) :
    (armDeadline s k headers).timers
      = if (armedDelay headers).isSome then s.nextTimer :: s.timers else s.timers := by
  unfold armDeadline armedDelay
  cases find headers "grpc-timeout" with
  | none => rfl
  | some v =>
      by_cases h : parseGrpcTimeout v > 0
      · simp [h]
      · simp [h, State.setCall]

theorem dispatchStream_timers (s : State) (first : Option Bytes) :
    (dispatchStream s first).timers = s.timers := by
  unfold dispatchStream
  split
  · split <;> rfl
  · rfl

/-- A timer is armed with the new call exactly if `SetTimer` is called. -/
theorem onHeadersComplete_timers (cfg : Config) (s : State) {headers : HeaderMap} (e : Bool)
    (h : wellAddressed headers = true) :
    (onHeadersComplete cfg s headers e).1.timers
      = if (armedDelay headers).isSome then s.nextTimer :: s.timers else s.timers := by
  unfold wellAddressed at h
  split at h
  · next ct path hct hpath =>
    simp only [onHeadersComplete, hct, hpath, h, Bool.not_true, Bool.false_eq_true, if_false]
    split
    · rw [dispatchStream_timers, armDeadline_timers]
    · rw [armDeadline_timers]
  · cases h

theorem armedDelay_denotes {headers : HeaderMap} {v : Bytes} {nanos : Nat}
    (hv : find headers "grpc-timeout" = some v) (hd : Denotes v nanos) :
    armedDelay headers = if 1000000 ≤ nanos then some (nanos / 1000000) else none := by
  simp only [armedDelay, hv, parseGrpcTimeout_denotes hd]
  by_cases h : 1000000 ≤ nanos
  · rw [if_pos h, if_pos (Nat.div_pos h (by decide))]
  · rw [if_neg h, if_neg (by omega)]

/-- For two requests with timeouts, the first no longer than the second: the first gets a
    deadline, and none with a longer delay than the second, if and only if its timeout is at least a
    millisecond. -/
theorem deadline_monotone_iff (cfg : Config) (s : State) (h₁ h₂ : HeaderMap) (e : Bool)
    {v₁ v₂ : Bytes} {d₁ d₂ : Nat} (ha : wellAddressed h₁ = true)
    (hv₁ : find h₁ "grpc-timeout" = some v₁) (hv₂ : find h₂ "grpc-timeout" = some v₂)
    (hd₁ : Denotes v₁ d₁) (hd₂ : Denotes v₂ d₂) (hle : d₁ ≤ d₂) :
    ((onHeadersComplete cfg s h₁ e).1.timers = s.nextTimer :: s.timers ∧
      ∃ m₁ m₂, armedDelay h₁ = some m₁ ∧ armedDelay h₂ = some m₂ ∧ m₁ ≤ m₂) ↔
      1000000 ≤ d₁ := by
  rw [onHeadersComplete_timers cfg s e ha, armedDelay_denotes hv₁ hd₁, armedDelay_denotes hv₂ hd₂]
  by_cases h : 1000000 ≤ d₁
  · rw [if_pos h, if_pos (Nat.le_trans h hle)]
    refine iff_of_true ⟨rfl, _, _, rfl, rfl, Nat.div_le_div_right hle⟩ h
  · rw [if_neg h]
    simp [h]

/-- A request header block with this timeout. -/
def timedHeaders (timeout : String) : HeaderMap :=
  [("content-type", kContentType), (":path", str "/t/B"), ("grpc-timeout", str timeout)]

/-- 2000 microseconds against one second. -/
theorem deadline_monotone_micros :
    (onHeadersComplete { router := fun _ => none } {} (timedHeaders "2000u") false).1.timers
        = [({} : State).nextTimer] ∧
      ∃ m₁ m₂, armedDelay (timedHeaders "2000u") = some m₁ ∧
        armedDelay (timedHeaders "1S") = some m₂ ∧ m₁ ≤ m₂ :=
  (deadline_monotone_iff { router := fun _ => none } {} (timedHeaders "2000u") (timedHeaders "1S")
    false (by decide) rfl rfl
    ⟨str "2000", 117, 1000, by decide, by decide, by decide, by decide, rfl, rfl⟩
    ⟨str "1", 83, 1000000000, by decide, by decide, by decide, by decide, rfl, rfl⟩
    (by decide)).mpr (by decide)

/-- 999 microseconds: no deadline at all, though one millisecond gets one. -/
theorem deadline_dropped :
    Denotes (str "999u") 999000 ∧ Denotes (str "1m") 1000000 ∧
      armedDelay (timedHeaders "999u") = none ∧ armedDelay (timedHeaders "1m") = some 1 ∧
      (onHeadersComplete { router := fun _ => none } {} (timedHeaders "999u") false).1.timers = [] :=
  ⟨⟨str "999", 117, 1000, by decide, by decide, by decide, by decide, rfl, rfl⟩,
    ⟨str "1", 109, 1000000, by decide, by decide, by decide, by decide, rfl, rfl⟩,
    by decide, by decide, by decide⟩

end Urpc.Server
