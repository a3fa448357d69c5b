/-
  The parts of the C++ standard library that byte-string code leans on: `std::string` as a
  list of bytes, `std::to_string`, and the prefix parsers `std::stoi` and `std::stoull`
  (leading white space, an optional sign, then decimal digits; trailing text is ignored;
  `none` stands for a thrown `invalid_argument` or `out_of_range`).
-/
import Mathlib

namespace Cxx

abbrev Bytes := List UInt8

/-- A string literal (ASCII). -/
def str (s : String) : Bytes := s.toList.map fun c => UInt8.ofNat c.toNat

def isSpace (c : UInt8) : Bool := c == 32 || (9 ≤ c && c ≤ 13)

def isDigit (c : UInt8) : Bool := 48 ≤ c && c ≤ 57

/-- The value of a run of decimal digits. -/
def decimal (ds : Bytes) : Nat := ds.foldl (fun n d => n * 10 + (d.toNat - 48)) 0

/-- The optional sign of `strtol`/`strtoull`: is it `-`, and what follows. -/
def sign : Bytes → Bool × Bytes
  | 45 :: s => (true, s)
  | 43 :: s => (false, s)
  | s => (false, s)

/-- White space, sign, digits: the sign and the magnitude, if there is a digit at all. -/
def scan (s : Bytes) : Option (Bool × Nat) :=
  let (neg, rest) := sign (s.dropWhile isSpace)
  let ds := rest.takeWhile isDigit
  if ds.isEmpty then none else some (neg, decimal ds)

/-- `std::stoull`: a minus sign negates modulo `2^64`. -/
def stoull (s : Bytes) : Option Nat :=
  match scan s with
  | none => none
  | some (neg, n) =>
      if n < 2 ^ 64 then some (if neg then (2 ^ 64 - n) % 2 ^ 64 else n) else none

/-- `std::stoi` with a 32-bit `int`. -/
def stoi (s : Bytes) : Option Int :=
  match scan s with
  | none => none
  | some (neg, n) =>
      let v : Int := if neg then -(n : Int) else n
      if -2 ^ 31 ≤ v ∧ v < 2 ^ 31 then some v else none

/-- Decimal digits of a natural number. -/
def natDigits (n : Nat) : Bytes := (Nat.toDigits 10 n).map fun c => UInt8.ofNat c.toNat

/-- `std::to_string(int)`. -/
def stringOfInt (n : Int) : Bytes :=
  if n < 0 then 45 :: natDigits n.natAbs else natDigits n.toNat

example : stoi (str " -14x") = some (-14) := by decide
example : stoull (str "-1") = some (2 ^ 64 - 1) := by decide

end Cxx
