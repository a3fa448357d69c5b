/-
  How the client reads `grpc-status`.

  `GrpcStatusFromInt` casts what `std::stoi` makes of the value. A strict reader would take the
  numerals of the closed set, and read every other text as an error of the set. `stoi` also skips
  blanks, takes a sign and ignores what follows the digits, and the cast is not checked: so a text
  that begins with a number outside the set gives a code outside the set, and a text that begins
  with a zero is a success, whatever stands around the zero.

  Proved: `grpc_status_strict_iff`.
-/
import Urpc.Lib.Scan
import Urpc.StatusWire

namespace Urpc

open Cxx

/-- The numbers of the closed set. -/
def closedSet : List Int := [0, 4, 8, 12, 13, 14, 15]

/-- `code` is what a strict reader makes of `v`: a code of the closed set, OK for the numerals of 0
    and nothing else, and the code that `v` denotes if it is a numeral of the set. Any other text
    is therefore an error of the set. -/
structure Strict (v : Bytes) (code : StatusCode) : Prop where
  known : code.known = true
  ok_iff : code = .ok ↔ Numeral v 0
  exact : ∀ c : StatusCode, c.known = true → Numeral v c.toInt.toNat → code = c

/-- If `v` begins with a number that an `int` can hold, maybe after blanks and a sign, then the
    number is one of the closed set, and a zero stands alone. -/
def StandsForCode (v : Bytes) : Prop :=
  ∀ neg n, Reads v neg n → IntRange (intOf neg n) →
    intOf neg n ∈ closedSet ∧ (n = 0 → v.all isDigit = true)

/-! ## The cast -/

theorem known_ofInt {n : Int} : (StatusCode.ofInt n).known = true ↔ n ∈ closedSet := by
  unfold StatusCode.ofInt
  split <;> simp_all [StatusCode.known, closedSet]

theorem ofInt_eq_ok {n : Int} : StatusCode.ofInt n = .ok ↔ n = 0 := by
  unfold StatusCode.ofInt
  split <;> simp_all

theorem ofInt_toInt {c : StatusCode} (h : c.known = true) : StatusCode.ofInt c.toInt = c := by
  cases c with
  | raw n => cases h
  | _ => rfl

theorem toInt_small {c : StatusCode} (h : c.known = true) : 0 ≤ c.toInt ∧ c.toInt < 16 := by
  cases c with
  | raw n => cases h
  | _ => decide

/-- A numeral of the set is read as its code. -/
theorem grpcStatusFromInt_numeral {v : Bytes} {c : StatusCode} (hc : c.known = true)
    (h : Numeral v c.toInt.toNat) : Channel.grpcStatusFromInt v .internal = c := by
  obtain ⟨hnonneg, hsmall⟩ := toInt_small hc
  rw [Channel.grpcStatusFromInt, h.stoi (by omega), Int.toNat_of_nonneg hnonneg]
  exact ofInt_toInt hc

/-- The reader is strict on the texts that begin with no number, or that stand for a code. -/
theorem strict_grpcStatusFromInt {v : Bytes} (h : StandsForCode v) :
    Strict v (Channel.grpcStatusFromInt v .internal) := by
  refine ⟨?_, ⟨fun hok => ?_, fun hzero => ?_⟩, fun c hc hv => grpcStatusFromInt_numeral hc hv⟩
  · cases hstoi : stoi v with
    | none =>
        rw [Channel.grpcStatusFromInt, hstoi]
        rfl
    | some k =>
        obtain ⟨neg, n, hreads, hrange, rfl⟩ := stoi_eq_some_iff.mp hstoi
        rw [Channel.grpcStatusFromInt, hstoi]
        exact known_ofInt.mpr (h neg n hreads hrange).1
  · cases hstoi : stoi v with
    | none =>
        rw [Channel.grpcStatusFromInt, hstoi] at hok
        cases hok
    | some k =>
        obtain ⟨neg, n, hreads, hrange, rfl⟩ := stoi_eq_some_iff.mp hstoi
        rw [Channel.grpcStatusFromInt, hstoi] at hok
        have hn : n = 0 := by
          have hzero := ofInt_eq_ok.mp hok
          cases neg <;> simp only [intOf] at hzero <;> omega
        have hdigits := (h neg n hreads hrange).2 hn
        have hne : v ≠ [] := by
          rintro rfl
          cases hstoi
        exact ⟨hne, hdigits, ((reads_digits hne hdigits).unique hreads).2.trans hn⟩
  · exact grpcStatusFromInt_numeral (c := .ok) rfl hzero

/-- The reader is strict on no other text. -/
theorem standsForCode_of_strict {v : Bytes}
    (h : Strict v (Channel.grpcStatusFromInt v .internal)) : StandsForCode v := by
  intro neg n hreads hrange
  have hcode : Channel.grpcStatusFromInt v .internal = .ofInt (intOf neg n) := by
    rw [Channel.grpcStatusFromInt, stoi_of_reads hreads hrange]
  rw [hcode] at h
  refine ⟨known_ofInt.mp h.known, ?_⟩
  rintro rfl
  have hok : StatusCode.ofInt (intOf neg 0) = .ok := by cases neg <;> rfl
  exact (h.ok_iff.mp hok).2.1

/-- A client that waits for a response is told one status by a terminal block, and the reading of
    the block's `grpc-status` is strict exactly if its text stands for a code or begins with no
    number at all. -/
theorem grpc_status_strict_iff (s : Channel.State) (sid : Nat) (headers : HeaderMap) (v : Bytes)
    (hawait : Channel.Awaits s sid) (hv : find headers "grpc-status" = some v) :
    ∃ st, Channel.told s (Channel.onHeadersComplete s sid headers) = [st] ∧
      (Strict v st.code ↔ StandsForCode v) :=
  ⟨_, Channel.told_of_trailers hawait hv, standsForCode_of_strict, strict_grpcStatusFromInt⟩

/-- A stream that ends with `grpc-status: 14`. -/
theorem grpc_status_strict_unavailable :
    ∃ c, Channel.machine.Reach Channel.anyStep (Channel.fresh Channel.demo) c ∧
      ∃ st, Channel.told c.st (Channel.onHeadersComplete c.st 3 [("grpc-status", str "14")]) = [st] ∧
        Strict (str "14") st.code := by
  obtain ⟨c, hc, hawait⟩ := Server.awaits_demo
  obtain ⟨st, htold, hiff⟩ := grpc_status_strict_iff c.st 3 [("grpc-status", str "14")]
    (str "14") hawait (by decide)
  have hnumeral : Numeral (str "14") 14 := by
    refine ⟨by decide, by decide, by decide⟩
  refine ⟨c, hc, st, htold, hiff.mpr fun neg n hreads hrange => ?_⟩
  obtain ⟨rfl, rfl⟩ := hnumeral.reads.unique hreads
  exact ⟨by decide, fun hzero => by cases hzero⟩

/-- `0abc` is a success, and `5` a code outside the closed set. -/
theorem grpc_status_misread :
    ∃ c, Channel.machine.Reach Channel.anyStep (Channel.fresh Channel.demo) c ∧
      Channel.Awaits c.st 3 ∧
      Channel.told c.st (Channel.onHeadersComplete c.st 3 [("grpc-status", str "0abc")]) =
        [⟨.ok, []⟩] ∧ ¬ Strict (str "0abc") .ok ∧
      Channel.told c.st (Channel.onHeadersComplete c.st 3 [("grpc-status", str "5")]) =
        [⟨.raw 5, []⟩] ∧ ¬ Strict (str "5") (.raw 5) := by
  obtain ⟨c, hc, hawait⟩ := Server.awaits_demo
  have hgarbage : find [("grpc-status", str "0abc")] "grpc-status" = some (str "0abc") := by decide
  have hfive : find [("grpc-status", str "5")] "grpc-status" = some (str "5") := by decide
  refine ⟨c, hc, hawait, ?_, fun h => ?_, ?_, fun h => ?_⟩
  · exact (Channel.told_of_trailers hawait hgarbage).trans (by decide)
  · exact absurd (h.ok_iff.mp rfl).2.1 (by decide)
  · exact (Channel.told_of_trailers hawait hfive).trans (by decide)
  · exact absurd h.known (by decide)

end Urpc
