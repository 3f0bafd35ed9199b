import NemoRL.Lib.Gradient
import Mathlib.Algebra.BigOperators.Field

/-!
# Softmax and its logarithm

The logarithm of the softmax of finitely many real numbers, and the gradients of what losses
compute from it: one entry, a weighted sum of entries, the cross entropy against fixed weights and
the entropy.

## Main definitions

* `softmax`, `logSoftmax` — over any finite index type.

## Main results

* `logSoftmax_sub_const` — a common shift of all numbers changes nothing.
* `hasGradient_logSoftmax`, `hasGradient_gather`, `hasGradient_crossEntropy`,
  `hasGradient_entropy` — the gradients.
-/

namespace NemoRL.Lib

variable {ι κ : Type*} [Fintype ι] [Fintype κ] {z : ι → ℝ}

/-- The softmax of some numbers. -/
noncomputable def softmax (z : ι → ℝ) (i : ι) : ℝ := Real.exp (z i) / ∑ j, Real.exp (z j)

/-- The logarithm of the softmax. -/
noncomputable def logSoftmax (z : ι → ℝ) (i : ι) : ℝ := z i - Real.log (∑ j, Real.exp (z j))

theorem sum_exp_pos [Nonempty ι] (z : ι → ℝ) : 0 < ∑ j, Real.exp (z j) :=
  Finset.sum_pos (fun j _ => Real.exp_pos (z j)) Finset.univ_nonempty

theorem exp_logSoftmax [Nonempty ι] (z : ι → ℝ) (i : ι) :
    Real.exp (logSoftmax z i) = softmax z i := by
  rw [logSoftmax, Real.exp_sub, Real.exp_log (sum_exp_pos z), softmax]

theorem sum_softmax [Nonempty ι] (z : ι → ℝ) : ∑ i, softmax z i = 1 := by
  simp only [softmax]
  rw [← Finset.sum_div, div_self (sum_exp_pos z).ne']

/-- A common shift of all numbers changes nothing. -/
theorem logSoftmax_sub_const [Nonempty ι] (z : ι → ℝ) (m : ℝ) (i : ι) :
    logSoftmax (fun j => z j - m) i = logSoftmax z i := by
  have hsum : ∑ j, Real.exp (z j - m) = (∑ j, Real.exp (z j)) / Real.exp m := by
    rw [Finset.sum_div]
    exact Finset.sum_congr rfl fun j _ => Real.exp_sub (z j) m
  rw [logSoftmax, hsum, Real.log_div (sum_exp_pos z).ne' (Real.exp_pos m).ne', Real.log_exp,
    logSoftmax]
  ring

theorem logSoftmax_equiv (e : κ ≃ ι) (z : ι → ℝ) (k : κ) :
    logSoftmax (fun k => z (e k)) k = logSoftmax z (e k) := by
  rw [logSoftmax, logSoftmax]
  congr 2
  exact Fintype.sum_equiv e _ _ fun k => rfl

/-! ## Gradients -/

theorem hasGradient_logSoftmax [Nonempty ι] [DecidableEq ι] (z : ι → ℝ) (t : ι) :
    HasGradient (fun z => logSoftmax z t) (fun i => (if i = t then 1 else 0) - softmax z i) z := by
  have hexp := HasGradient.sum fun j => (HasGradient.coord j z).exp
  have hlog := (HasGradient.coord t z).sub (hexp.log (sum_exp_pos z).ne')
  simpa [softmax, logSoftmax] using hlog

/-- The gradient of a weighted sum of entries, which may repeat. -/
theorem hasGradient_gather [Nonempty ι] [DecidableEq ι] (g : κ → ℝ) (t : κ → ι) (z : ι → ℝ) :
    HasGradient (fun z => ∑ k, g k * logSoftmax z (t k))
      (fun i => -softmax z i * ∑ k, g k + ∑ k, if t k = i then g k else 0) z := by
  have hsum := HasGradient.sum fun k => (hasGradient_logSoftmax z (t k)).const_mul (g k)
  have hcoeff : (fun i => ∑ k, g k * ((if i = t k then 1 else 0) - softmax z i)) =
      fun i => -softmax z i * ∑ k, g k + ∑ k, if t k = i then g k else 0 := by
    funext i
    rw [Finset.mul_sum, ← Finset.sum_add_distrib]
    refine Finset.sum_congr rfl fun k _ => ?_
    by_cases h : t k = i
    · rw [if_pos h, if_pos h.symm]
      ring
    · rw [if_neg h, if_neg (Ne.symm h)]
      ring
  rwa [hcoeff] at hsum

/-- The gradient of the cross entropy against weights that sum to one. -/
theorem hasGradient_crossEntropy [Nonempty ι] [DecidableEq ι] {p : ι → ℝ} (hp : ∑ i, p i = 1)
    (z : ι → ℝ) :
    HasGradient (fun z => -∑ i, p i * logSoftmax z i) (fun i => softmax z i - p i) z := by
  have hgather := (hasGradient_gather p id z).const_mul (-1)
  simpa [hp, sub_eq_add_neg, add_comm] using hgather

/-- The gradient of the negative entropy. -/
theorem hasGradient_entropy [Nonempty ι] [DecidableEq ι] (z : ι → ℝ) :
    HasGradient (fun z => ∑ i, softmax z i * logSoftmax z i)
      (fun i => softmax z i * (logSoftmax z i - ∑ j, softmax z j * logSoftmax z j)) z := by
  have hterm := HasGradient.sum fun j =>
    (hasGradient_logSoftmax z j).exp.mul (hasGradient_logSoftmax z j)
  simp only [exp_logSoftmax] at hterm
  have hcoeff : (fun i => ∑ j, (softmax z j * ((if i = j then 1 else 0) - softmax z i) +
      logSoftmax z j * (softmax z j * ((if i = j then 1 else 0) - softmax z i)))) =
      fun i => softmax z i * (logSoftmax z i - ∑ j, softmax z j * logSoftmax z j) := by
    funext i
    have hsplit : ∀ j, softmax z j * ((if i = j then 1 else 0) - softmax z i) +
        logSoftmax z j * (softmax z j * ((if i = j then 1 else 0) - softmax z i)) =
        (if i = j then softmax z j * (1 + logSoftmax z j) else 0) -
          softmax z i * softmax z j - softmax z i * (softmax z j * logSoftmax z j) := by
      intro j
      by_cases h : i = j
      · rw [if_pos h, if_pos h]
        ring
      · rw [if_neg h, if_neg h]
        ring
    simp only [hsplit, Finset.sum_sub_distrib, Finset.sum_ite_eq, Finset.mem_univ, if_true,
      ← Finset.mul_sum, sum_softmax]
    ring
  rwa [hcoeff] at hterm

end NemoRL.Lib
