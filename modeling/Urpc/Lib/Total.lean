/-
  Sums over tables. A table is a function on `Nat` of which the first `n` entries are in use;
  `total f n g` adds up the weights `f i (g i)` of these.

  * `total_update`, `total_update_add`: what one changed entry does to the sum, and to two sums.
  * `total_succ`: one more entry in use.
  * `le_total`, `total_congr`, `total_eq_zero`, `total_eq_single`: comparing the sum with its
    entries.
-/
import Mathlib

namespace Total

variable {α : Type*} (f : Nat → α → Nat)

def total (n : Nat) (g : Nat → α) : Nat := ∑ i ∈ Finset.range n, f i (g i)

variable {f}

theorem total_succ (n : Nat) (g : Nat → α) : total f (n + 1) g = total f n g + f n (g n) :=
  Finset.sum_range_succ _ n

theorem total_congr {n : Nat} {g h : Nat → α} (heq : ∀ i < n, f i (g i) = f i (h i)) :
    total f n g = total f n h :=
  Finset.sum_congr rfl fun i hi => heq i (Finset.mem_range.mp hi)

theorem le_total {n i : Nat} (g : Nat → α) (hi : i < n) : f i (g i) ≤ total f n g :=
  Finset.single_le_sum (f := fun i => f i (g i)) (fun _ _ => Nat.zero_le _)
    (Finset.mem_range.mpr hi)

theorem total_eq_zero {n : Nat} {g : Nat → α} (h : ∀ i < n, f i (g i) = 0) : total f n g = 0 :=
  Finset.sum_eq_zero fun i hi => h i (Finset.mem_range.mp hi)

/-- All but one of the entries count nothing. -/
theorem total_eq_single {n i : Nat} {g : Nat → α} (h : ∀ j < n, j ≠ i → f j (g j) = 0)
    (hi : n ≤ i → f i (g i) = 0) : total f n g = f i (g i) :=
  Finset.sum_eq_single i (fun j hj hne => h j (Finset.mem_range.mp hj) hne) fun hmem =>
    hi (Nat.le_of_not_lt fun hlt => hmem (Finset.mem_range.mpr hlt))

/-- An entry out of use does not count. -/
theorem total_update_of_le {n i : Nat} (g : Nat → α) (x : α) (hi : n ≤ i) :
    total f n (Function.update g i x) = total f n g := by
  apply total_congr
  intro j hj
  rw [Function.update_of_ne (by omega)]

/-- The old entry goes out of the sum, the new one comes in. -/
theorem total_update {n i : Nat} (g : Nat → α) (x : α) (hi : i < n) :
    total f n (Function.update g i x) + f i (g i) = total f n g + f i x := by
  induction n with
  | zero => omega
  | succ n ih =>
      rw [total_succ, total_succ]
      by_cases hn : i = n
      · subst hn
        rw [total_update_of_le g x (Nat.le_refl i), Function.update_self]
        omega
      · rw [Function.update_of_ne (fun h => hn h.symm)]
        have := ih (by omega)
        omega

/-- A new entry of the same weight changes nothing. -/
theorem total_update_same {n i : Nat} (g : Nat → α) (x : α) (h : f i x = f i (g i)) :
    total f n (Function.update g i x) = total f n g := by
  apply total_congr
  intro j hj
  by_cases hij : j = i
  · subst hij
    rw [Function.update_self, h]
  · rw [Function.update_of_ne hij]

/-- Two sums grow by the same when one entry changes. -/
theorem total_update_add {k : Nat → α → Nat} {n i : Nat} (g : Nat → α) (x : α)
    (h : f i x + k i (g i) = f i (g i) + k i x) :
    total f n (Function.update g i x) + total k n g =
      total f n g + total k n (Function.update g i x) := by
  by_cases hi : i < n
  · have h1 := total_update (f := f) g x hi
    have h2 := total_update (f := k) g x hi
    omega
  · rw [total_update_of_le g x (by omega), total_update_of_le g x (by omega)]

end Total
