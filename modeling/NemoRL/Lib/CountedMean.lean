import Mathlib.Algebra.BigOperators.Field
import Mathlib.Data.Fintype.BigOperators
import Mathlib.Algebra.Order.BigOperators.Group.Finset
import Mathlib.Algebra.Order.Field.Basic
import Mathlib.Data.Nat.Cast.Order.Field

/-!
# Means by a count

The mean of a part is its total by its count, where a count of zero counts as one. The means
of the parts are the mean of the whole when at most one part counts, and are not when two
parts count but only one has a total.

## Main results

* `sum_countedMean` — one part counts.
* `sum_countedMean_ne` — two parts count.
-/

namespace NemoRL.Lib

variable {ι K : Type*} [Fintype ι] [Field K] [LinearOrder K] {count : ι → ℕ} {total : ι → K}

/-- The total of a part by its count. -/
def countedMean (count : ℕ) (total : K) : K := total / max (count : K) 1

@[simp] theorem countedMean_zero (count : ℕ) : countedMean count (0 : K) = 0 := by
  simp [countedMean]

theorem countedMean_sum (n : ℕ) : ∑ i, countedMean n (total i) = countedMean n (∑ i, total i) :=
  (Finset.sum_div _ _ _).symm

/-- When at most one part counts, its mean is the mean of the whole. -/
theorem sum_countedMean (hzero : ∀ i, count i = 0 → total i = 0)
    (h : ∀ i j, count i ≠ 0 → count j ≠ 0 → i = j) :
    ∑ i, countedMean (count i) (total i) = countedMean (∑ i, count i) (∑ i, total i) := by
  classical
  by_cases hsome : ∃ i, count i ≠ 0
  · obtain ⟨i, hi⟩ := hsome
    have hothers : ∀ j, j ≠ i → count j = 0 := fun j hj => by
      by_contra hcount
      exact hj (h j i hcount hi)
    have htotals : ∀ j, j ≠ i → total j = 0 := fun j hj => hzero j (hothers j hj)
    rw [Fintype.sum_eq_single i hothers, Fintype.sum_eq_single i htotals]
    refine Fintype.sum_eq_single i fun j hj => ?_
    rw [htotals j hj, countedMean_zero]
  · have htotals : ∀ i, total i = 0 := fun i => hzero i (by_contra fun hi => hsome ⟨i, hi⟩)
    simp [htotals]

variable [IsStrictOrderedRing K]

theorem countedMean_of_pos {n : ℕ} (hn : n ≠ 0) (x : K) : countedMean n x = x / n := by
  have hone : (1 : K) ≤ n := Nat.one_le_cast.mpr (Nat.one_le_iff_ne_zero.mpr hn)
  rw [countedMean, max_eq_left hone]

/-- When two parts count and one of them has the whole total, its mean is not the mean of the
whole. -/
theorem sum_countedMean_ne {i j : ι} (htotal : ∀ k, k ≠ i → total k = 0) (hi : total i ≠ 0)
    (hcount : count i ≠ 0) (hne : j ≠ i) (hj : count j ≠ 0) :
    ∑ k, countedMean (count k) (total k) ≠ countedMean (∑ k, count k) (∑ k, total k) := by
  classical
  have hlt : count i < ∑ k, count k := by
    rw [← Finset.add_sum_erase _ _ (Finset.mem_univ i)]
    have hle := Finset.single_le_sum (fun k _ => Nat.zero_le (count k))
      (Finset.mem_erase.mpr ⟨hne, Finset.mem_univ j⟩)
    omega
  have hleft : ∑ k, countedMean (count k) (total k) = countedMean (count i) (total i) :=
    Fintype.sum_eq_single i fun k hk => by rw [htotal k hk, countedMean_zero]
  rw [hleft, Fintype.sum_eq_single i htotal, countedMean_of_pos hcount,
    countedMean_of_pos (by omega)]
  intro heq
  have hwhole : ((∑ k, count k : ℕ) : K) ≠ 0 := Nat.cast_ne_zero.mpr (by omega)
  rw [div_eq_div_iff (Nat.cast_ne_zero.mpr hcount) hwhole] at heq
  exact hlt.ne' (Nat.cast_injective (mul_left_cancel₀ hi heq))

end NemoRL.Lib
