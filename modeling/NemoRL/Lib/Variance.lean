import Mathlib.Algebra.BigOperators.Group.List.Basic
import Mathlib.Algebra.Order.BigOperators.Group.List
import Mathlib.Algebra.Order.Field.Basic
import Mathlib.Tactic.FieldSimp
import Mathlib.Tactic.Linarith
import Mathlib.Tactic.Ring

/-!
# The variance of a list

The variance is computed from the sums of the values and of their squares. It is a mean of
squares, so that it is not negative, and zero only for a list of equal values. With the
correction for a sample it is infinite times zero for one value; division by zero gives zero,
so that one value counts as equal values.

## Main definitions

* `AllEqual` — the values of a list are equal.
* `sampleVariance` — the variance with the correction for a sample.

## Main results

* `sampleVariance_nonpos_iff` — the variance is not positive just for equal values.
-/

namespace NemoRL.Lib

/-- The values of a list are equal. -/
def AllEqual {α : Type*} (xs : List α) : Prop := ∀ x ∈ xs, ∀ y ∈ xs, x = y

instance {α : Type*} [DecidableEq α] (xs : List α) : Decidable (AllEqual xs) :=
  inferInstanceAs (Decidable (∀ x ∈ xs, ∀ y ∈ xs, x = y))

theorem allEqual_of_forall {α : Type*} {xs : List α} {c : α} (h : ∀ x ∈ xs, x = c) :
    AllEqual xs :=
  fun x hx y hy => (h x hx).trans (h y hy).symm

theorem AllEqual.of_subset {α : Type*} {xs ys : List α} (h : AllEqual ys) (hsub : xs ⊆ ys) :
    AllEqual xs :=
  fun x hx y hy => h x (hsub hx) y (hsub hy)

section Field
variable {K : Type*} [Field K]

/-- The variance of some values with the correction for a sample. -/
def sampleVariance (xs : List K) : K :=
  ((xs.map (· ^ 2)).sum / xs.length - (xs.sum / xs.length) ^ 2) * (xs.length / (xs.length - 1))

/-- The squares of the distances from a value. -/
theorem sum_sq_sub (xs : List K) (m : K) :
    (xs.map fun x => (x - m) ^ 2).sum =
      (xs.map (· ^ 2)).sum - 2 * m * xs.sum + xs.length * m ^ 2 := by
  induction xs with
  | nil => simp
  | cons x xs ih =>
    simp only [List.map_cons, List.sum_cons, ih, List.length_cons, Nat.cast_add, Nat.cast_one]
    ring

variable [LinearOrder K] [IsStrictOrderedRing K]

/-- The mean of the squares without the square of the mean is the mean of the squared
distances. -/
theorem sum_sq_sub_mean {xs : List K} (h : xs ≠ []) :
    (xs.map (· ^ 2)).sum / xs.length - (xs.sum / xs.length) ^ 2 =
      (xs.map fun x => (x - xs.sum / xs.length) ^ 2).sum / xs.length := by
  have hlength : (xs.length : K) ≠ 0 := by
    rw [Nat.cast_ne_zero]
    exact fun h0 => h (List.length_eq_zero_iff.mp h0)
  rw [sum_sq_sub]
  field_simp
  ring

/-- A sum of squares that is not positive has zeros only. -/
theorem sum_sq_nonpos_iff (xs : List K) (m : K) :
    (xs.map fun x => (x - m) ^ 2).sum ≤ 0 ↔ ∀ x ∈ xs, x = m := by
  induction xs with
  | nil => simp
  | cons x xs ih =>
    have hsum : 0 ≤ (xs.map fun x => (x - m) ^ 2).sum :=
      List.sum_nonneg fun y hy => by
        obtain ⟨z, -, rfl⟩ := List.mem_map.mp hy
        exact sq_nonneg _
    have hsq := sq_nonneg (x - m)
    rw [List.map_cons, List.sum_cons, List.forall_mem_cons, ← ih]
    constructor
    · intro h
      have hx : (x - m) ^ 2 = 0 := by linarith
      exact ⟨sub_eq_zero.mp (pow_eq_zero_iff two_ne_zero |>.mp hx), by linarith⟩
    · rintro ⟨rfl, h⟩
      simpa using h

/-- The values are equal when they are their mean. -/
theorem forall_eq_mean_iff {xs : List K} (h : xs ≠ []) :
    (∀ x ∈ xs, x = xs.sum / xs.length) ↔ AllEqual xs := by
  refine ⟨allEqual_of_forall, fun hequal x hx => ?_⟩
  have hlength : (xs.length : K) ≠ 0 := by
    rw [Nat.cast_ne_zero]
    exact fun h0 => h (List.length_eq_zero_iff.mp h0)
  have hsum : xs.sum = xs.length * x := by
    rw [List.eq_replicate_iff.mpr ⟨rfl, fun y hy => hequal y hy x hx⟩, List.sum_replicate,
      List.length_replicate, nsmul_eq_mul]
  rw [hsum, mul_div_cancel_left₀ x hlength]

/-- The variance is not positive just for equal values. -/
theorem sampleVariance_nonpos_iff {xs : List K} (h : xs ≠ []) :
    sampleVariance xs ≤ 0 ↔ AllEqual xs := by
  rw [sampleVariance, sum_sq_sub_mean h]
  cases hxs : xs with
  | nil => exact absurd hxs h
  | cons x rest =>
    cases rest with
    | nil => simp [AllEqual]
    | cons y rest =>
      rw [← hxs, ← forall_eq_mean_iff h, ← sum_sq_nonpos_iff xs (xs.sum / xs.length)]
      have hlength : (2 : K) ≤ xs.length := by
        rw [hxs]
        exact_mod_cast (by simp : 2 ≤ (x :: y :: rest).length)
      have hfactor : 0 < (xs.length : K) / (xs.length - 1) := by
        apply div_pos
        · linarith
        · linarith
      have hpos : (0 : K) < xs.length := by linarith
      rw [← not_lt, ← not_lt, mul_pos_iff_of_pos_right hfactor, div_pos_iff_of_pos_right hpos]

end Field

end NemoRL.Lib
