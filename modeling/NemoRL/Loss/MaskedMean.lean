import Mathlib.Algebra.BigOperators.Group.List.Basic
import Mathlib.Algebra.Field.Basic
import Mathlib.Algebra.Order.Field.Basic
import NemoRL.Error

/-!
# Masked means

The losses are masked sums over the positions of a batch, divided by a count. The count is
that of the tensor itself, or a global one, with which the means of the parts of a batch add
up to the mean of the batch.

Values are those of an ordered field, and the exponential is any function on it.

## Main definitions

* `maskedMean` — the masked mean of a tensor.
* `calculateKl` — an estimate of the divergence at a position.

## Main results

* `maskedMean_flatMap` — with a global count, means add up.
* `maskedMean_append_zero` — masked positions do not count.
-/

namespace NemoRL.Loss

variable {K ι : Type} [Field K]

/-! ## Means -/

/-- The mean of the values where the mask is set, by the sum of the mask or by a global
count. -/
def maskedMean (values mask : List K) (globalNormalizationFactor : Option K) : K :=
  let normalizationFactor := globalNormalizationFactor.getD mask.sum
  (List.zipWith (· * ·) values mask).sum / (normalizationFactor + 1 / 10 ^ 8)

@[simp] theorem maskedMean_nil (mask : List K) (n : Option K) : maskedMean [] mask n = 0 := by
  simp [maskedMean]

/-- The masked sum of a tensor is the sum of the masked sums of its rows. -/
theorem sum_zipWith_flatMap (rows : List ι) (values mask : ι → List K)
    (h : ∀ row, (values row).length = (mask row).length) :
    (List.zipWith (· * ·) (rows.flatMap values) (rows.flatMap mask)).sum =
      (rows.map fun row => (List.zipWith (· * ·) (values row) (mask row)).sum).sum := by
  induction rows with
  | nil => simp
  | cons row rows ih =>
    rw [List.flatMap_cons, List.flatMap_cons, List.zipWith_append (h row), List.sum_append, ih,
      List.map_cons, List.sum_cons]

/-- With a global count, the mean of a concatenation is the sum of the means. -/
theorem maskedMean_append {xs ms : List K} (ys ns : List K) (n : K)
    (h : xs.length = ms.length) :
    maskedMean (xs ++ ys) (ms ++ ns) (some n) =
      maskedMean xs ms (some n) + maskedMean ys ns (some n) := by
  simp only [maskedMean, Option.getD_some]
  rw [List.zipWith_append h, List.sum_append, add_div]

/-- With a global count, the mean of a tensor is the sum of the means of its rows. -/
theorem maskedMean_flatMap (rows : List ι) (values mask : ι → List K) (n : K)
    (h : ∀ row, (values row).length = (mask row).length) :
    maskedMean (rows.flatMap values) (rows.flatMap mask) (some n) =
      (rows.map fun row => maskedMean (values row) (mask row) (some n)).sum := by
  induction rows with
  | nil => simp
  | cons row rows ih =>
    rw [List.flatMap_cons, List.flatMap_cons, maskedMean_append _ _ _ (h row), ih,
      List.map_cons, List.sum_cons]

/-- The mean of a list of numbers is the sum of their shares. -/
theorem maskedMean_map (rows : List ι) (value mask : ι → K) (n : K) :
    maskedMean (rows.map value) (rows.map mask) (some n) =
      (rows.map fun row => maskedMean [value row] [mask row] (some n)).sum := by
  induction rows with
  | nil => simp
  | cons row rows ih =>
    have happend := maskedMean_append (rows.map value) (rows.map mask) n
      (show [value row].length = [mask row].length from rfl)
    rw [List.map_cons, List.map_cons, List.map_cons, List.sum_cons, ← ih]
    exact happend

theorem sum_zipWith_zero {ys ns : List K} (h : ∀ m ∈ ns, m = 0) :
    (List.zipWith (· * ·) ys ns).sum = 0 := by
  induction ys generalizing ns with
  | nil => simp
  | cons y ys ih =>
    cases ns with
    | nil => simp
    | cons m ns =>
      rw [List.zipWith_cons_cons, List.sum_cons, h m List.mem_cons_self,
        ih fun m' hm => h m' (List.mem_cons_of_mem m hm)]
      simp

/-- Positions that are masked do not count. -/
theorem maskedMean_append_zero {xs ms : List K} (ys : List K) {ns : List K} (n : Option K)
    (h : xs.length = ms.length) (hns : ∀ m ∈ ns, m = 0) :
    maskedMean (xs ++ ys) (ms ++ ns) n = maskedMean xs ms n := by
  have hsum : ns.sum = 0 := List.sum_eq_zero hns
  simp only [maskedMean, List.zipWith_append h, List.sum_append, sum_zipWith_zero hns, hsum,
    add_zero]

/-! ## Divergence -/

section Divergence
variable [LinearOrder K]

/-- Cut off a value at a lower and an upper bound. -/
def clamp (x lower upper : K) : K := min (max x lower) upper

/-- The estimators of the divergence. -/
inductive KlType
  | k1
  | k2
  | k3
  deriving DecidableEq, Repr

/-- The estimator that a configuration names. -/
def KlType.ofString (klType : String) : Except PyError KlType :=
  if klType = "k1" then .ok .k1
  else if klType = "k2" then .ok .k2
  else if klType = "k3" then .ok .k3
  else .error ⟨.valueError, "Invalid KL type: " ++ klType⟩

/-- The estimate of the divergence at one position. -/
def calculateKl (exp : K → K) (logprob logprobReference : K) (klType : KlType)
    (inputClampValue outputClampValue importanceSamplingWeight : Option K) : K :=
  let logr := logprobReference - logprob
  let logr := match inputClampValue with
    | some bound => clamp logr (-bound) bound
    | none => logr
  let kl := match klType with
    | .k1 => -logr
    | .k2 => logr ^ 2 / 2
    | .k3 => exp logr - 1 - logr
  let kl := match importanceSamplingWeight with
    | some weight => weight * kl
    | none => kl
  match outputClampValue with
  | some bound => clamp kl (-bound) bound
  | none => kl

end Divergence
end NemoRL.Loss
