import Mathlib.Analysis.Calculus.FDeriv.Mul
import Mathlib.Analysis.SpecialFunctions.ExpDeriv
import Mathlib.Analysis.SpecialFunctions.Log.Deriv

/-!
# Gradients over finite index types

A real function of finitely many real variables has a gradient at a point when its derivative
there is the linear form with these coefficients. What the backward pass of an automatic
differentiation returns is such a gradient. The rules are those of the derivative, written for the
coefficients.

## Main definitions

* `linearForm` — the linear form with given coefficients.
* `HasGradient` — the derivative of a function at a point, by its coefficients.

## Main results

* `HasGradient.comp_linear` — the gradient behind a linear map.
* `hasGradient_rows` — the gradient of a sum over the rows of a table.
-/

namespace NemoRL.Lib

variable {ι κ β : Type*} [Fintype ι] [Fintype κ] [Fintype β]

/-- The linear form with given coefficients. -/
noncomputable def linearForm (c : ι → ℝ) : (ι → ℝ) →L[ℝ] ℝ :=
  ∑ i, c i • ContinuousLinearMap.proj i

theorem linearForm_apply (c x : ι → ℝ) : linearForm c x = ∑ i, c i * x i := by
  simp [linearForm]

/-- The derivative of `F` at `x` is the linear form with coefficients `g`. -/
def HasGradient (F : (ι → ℝ) → ℝ) (g x : ι → ℝ) : Prop := HasFDerivAt F (linearForm g) x

namespace HasGradient
variable {F G : (ι → ℝ) → ℝ} {g h x : ι → ℝ}

/-- A derivative is a gradient when it agrees with the coefficients. -/
theorem of_apply {F' : (ι → ℝ) →L[ℝ] ℝ} (hF : HasFDerivAt F F' x)
    (hF' : ∀ dx, F' dx = ∑ i, g i * dx i) : HasGradient F g x := by
  have heq : F' = linearForm g := by
    ext dx
    rw [hF', linearForm_apply]
  rwa [HasGradient, ← heq]

theorem coord [DecidableEq ι] (i : ι) (x : ι → ℝ) :
    HasGradient (fun x => x i) (fun j => if j = i then 1 else 0) x := by
  refine of_apply (hasFDerivAt_apply i x) fun dx => ?_
  simp

theorem sub (hF : HasGradient F g x) (hG : HasGradient G h x) :
    HasGradient (fun x => F x - G x) (fun i => g i - h i) x := by
  refine of_apply (HasFDerivAt.sub hF hG) fun dx => ?_
  simp [linearForm_apply, sub_mul]

theorem const_mul (hF : HasGradient F g x) (c : ℝ) :
    HasGradient (fun x => c * F x) (fun i => c * g i) x := by
  refine of_apply (HasFDerivAt.const_mul hF c) fun dx => ?_
  simp [linearForm_apply, Finset.mul_sum, mul_assoc]

theorem mul (hF : HasGradient F g x) (hG : HasGradient G h x) :
    HasGradient (fun x => F x * G x) (fun i => F x * h i + G x * g i) x := by
  refine of_apply (HasFDerivAt.mul hF hG) fun dx => ?_
  simp [linearForm_apply, Finset.mul_sum, Finset.sum_add_distrib, add_mul, mul_assoc]

theorem exp (hF : HasGradient F g x) :
    HasGradient (fun x => Real.exp (F x)) (fun i => Real.exp (F x) * g i) x := by
  refine of_apply (HasFDerivAt.exp hF) fun dx => ?_
  simp [linearForm_apply, Finset.mul_sum, mul_assoc]

theorem log (hF : HasGradient F g x) (hx : F x ≠ 0) :
    HasGradient (fun x => Real.log (F x)) (fun i => g i / F x) x := by
  refine of_apply (HasFDerivAt.log hF hx) fun dx => ?_
  simp [linearForm_apply, Finset.mul_sum, div_eq_inv_mul, mul_assoc]

theorem sum {F : κ → (ι → ℝ) → ℝ} {g : κ → ι → ℝ} (hF : ∀ k, HasGradient (F k) (g k) x) :
    HasGradient (fun x => ∑ k, F k x) (fun i => ∑ k, g k i) x := by
  refine of_apply (HasFDerivAt.fun_sum fun k _ => hF k) fun dx => ?_
  simp only [sum_apply, linearForm_apply, Finset.sum_mul]
  exact Finset.sum_comm

/-- The gradient behind a continuous linear map. -/
theorem comp_clm {F : (κ → ℝ) → ℝ} {g : κ → ℝ} (A : (ι → ℝ) →L[ℝ] (κ → ℝ))
    (hF : HasGradient F g (A x)) (hA : ∀ dx, ∑ k, g k * A dx k = ∑ i, h i * dx i) :
    HasGradient (fun x => F (A x)) h x := by
  refine of_apply (HasFDerivAt.comp x hF A.hasFDerivAt) fun dx => ?_
  rw [ContinuousLinearMap.comp_apply, linearForm_apply, hA]

/-- The gradient of a function of linear combinations of the variables. -/
theorem comp_linear {F : (κ → ℝ) → ℝ} {g : κ → ℝ} (A : κ → ι → ℝ)
    (hF : HasGradient F g fun k => ∑ i, A k i * x i) :
    HasGradient (fun x => F fun k => ∑ i, A k i * x i) (fun i => ∑ k, g k * A k i) x := by
  have hA : ∀ x : ι → ℝ, (ContinuousLinearMap.pi fun k => linearForm (A k)) x =
      fun k => ∑ i, A k i * x i := fun x => funext fun k => linearForm_apply (A k) x
  have hcomp := comp_clm (x := x) (F := F) (g := g) (h := fun i => ∑ k, g k * A k i)
    (ContinuousLinearMap.pi fun k => linearForm (A k)) (by rwa [hA]) fun dx => by
      rw [hA]
      simp only [Finset.mul_sum, Finset.sum_mul, mul_assoc]
      exact Finset.sum_comm
  simpa only [hA] using hcomp

/-- The gradient of a function of the variables under other names. -/
theorem comp_equiv {F : (κ → ℝ) → ℝ} {g : κ → ℝ} (e : κ ≃ ι)
    (hF : HasGradient F g fun k => x (e k)) :
    HasGradient (fun x => F fun k => x (e k)) (fun i => g (e.symm i)) x := by
  refine comp_clm (ContinuousLinearMap.pi fun k => ContinuousLinearMap.proj (e k)) hF fun dx => ?_
  exact Fintype.sum_equiv e _ _ fun k => by
    rw [Equiv.symm_apply_apply, ContinuousLinearMap.pi_apply, ContinuousLinearMap.proj_apply]

end HasGradient

/-- The gradient of a sum over the rows of a table, each with a function of its own. -/
theorem hasGradient_rows {F : β → (ι → ℝ) → ℝ} {g : β → ι → ℝ} {x : β × ι → ℝ}
    (hF : ∀ b, HasGradient (F b) (g b) fun i => x (b, i)) :
    HasGradient (fun x : β × ι → ℝ => ∑ b, F b fun i => x (b, i)) (fun p => g p.1 p.2) x := by
  classical
  have hrow : ∀ b, HasGradient (fun x : β × ι → ℝ => F b fun i => x (b, i))
      (fun p => if p.1 = b then g b p.2 else 0) x := fun b => by
    refine HasGradient.comp_clm
      (ContinuousLinearMap.pi fun i => ContinuousLinearMap.proj (b, i)) (hF b) fun dx => ?_
    simp [Fintype.sum_prod_type]
  have hsum := HasGradient.sum hrow
  simpa using hsum

end NemoRL.Lib
