import NemoRL.Algorithms.BaselineStd
import Mathlib.Algebra.Order.Field.Rat
import Mathlib.Data.Rat.Sqrt
import Mathlib.Analysis.Real.Sqrt

/-!
# What a baseline that leaves one out compares a row with

A row with a baseline that leaves one out should be compared with the valid rows of its prompt
other than itself, that is with their mean and their variance. The code divides the sum of their
rewards by the number of valid rows of the prompt less one. This is the number of the others for
a valid row. A row that is not valid is not among the valid rows, and there are as many others
as valid rows.

## Main definitions

* `otherValidRewards` — the rewards that a row should be compared with.
* `LeavesOneOut` — a row has their mean and their variance.

## Main results

* `row_eq` — the baseline and the deviation of a row, in terms of these rewards.
* `leavesOneOut_iff` — when all rows have the mean and the variance.
-/

namespace NemoRL.Algorithms

open Lib

variable {P K : Type} [DecidableEq P]

/-- The valid rows of a prompt. -/
def validIdx [DecidableEq K] [One K] (prompts : List P) (validMask : List K) (p : P) : List ℕ :=
  (promptIdx prompts p).filter fun i => validMask[i]? = some 1

/-- The rewards of the valid rows of a prompt other than the row `j`. -/
def otherValidRewards [DecidableEq K] [One K] (prompts : List P) (rewards validMask : List K)
    (p : P) (j : ℕ) : List K :=
  select rewards ((validIdx prompts validMask p).filter fun i => i ≠ j)

section Field
variable [Field K]

/-- The mean of some values. -/
def mean (xs : List K) : K := xs.sum / xs.length

/-- The unbiased variance of some values. Division by zero gives zero for a single one. -/
def unbiasedVariance (xs : List K) : K :=
  (xs.map fun x => (x - mean xs) ^ 2).sum / (xs.length - 1)

variable [LinearOrder K]

/-- A row has the mean of the other valid rewards of its prompt for its baseline, and the square
of its deviation is their unbiased variance. -/
def LeavesOneOut (prompts : List P) (rewards validMask : List K) (result : List K × List K)
    (p : P) (j : ℕ) : Prop :=
  result.1[j]? = some (mean (otherValidRewards prompts rewards validMask p j)) ∧
    ∃ std, result.2[j]? = some std ∧
      std ^ 2 = unbiasedVariance (otherValidRewards prompts rewards validMask p j)

/-! ## Sums over a group -/

omit [LinearOrder K] in
/-- A sum over a group with a mask is the sum over the rows of the mask. -/
theorem sum_map_mul_mask [DecidableEq K] {mask : ℕ → K} (h01 : ∀ i, mask i = 0 ∨ mask i = 1)
    (f : ℕ → K) (l : List ℕ) :
    (l.map fun i => f i * mask i).sum = ((l.filter fun i => mask i = 1).map f).sum := by
  induction l with
  | nil => rfl
  | cons i l ih =>
    rw [List.map_cons, List.sum_cons, ih, List.filter_cons]
    rcases h01 i with hzero | hone
    · simp [hzero]
    · simp [hone]

omit [LinearOrder K] in
theorem sum_map_mask [DecidableEq K] {mask : ℕ → K} (h01 : ∀ i, mask i = 0 ∨ mask i = 1)
    (l : List ℕ) : (l.map mask).sum = ((l.filter fun i => mask i = 1).length : K) := by
  have hsum := sum_map_mul_mask h01 (fun _ => 1) l
  simpa using hsum

omit [LinearOrder K] in
/-- What the code computes for one row of a group, from a sum over the other rows. -/
theorem getElem?_promptBaseline [DecidableEq K] {mask : ℕ → K}
    (h01 : ∀ i, mask i = 0 ∨ mask i = 1) (f : ℕ → K) {idx : List ℕ} (hnd : idx.Nodup) {i j : ℕ}
    (hi : idx[i]? = some j) :
    (promptBaseline true (idx.map f) (idx.map mask))[i]? =
      some ((((idx.filter fun k => k ≠ j).filter fun k => mask k = 1).map f).sum /
        ((idx.filter fun k => mask k = 1).length - 1)) := by
  obtain ⟨hlt, hj⟩ := List.getElem?_eq_some_iff.mp hi
  have hothers : idx.eraseIdx i = idx.filter fun k => k ≠ j := by
    rw [← hnd.erase_getElem i hlt, hj, hnd.erase_eq_filter]
    exact List.filter_congr fun k _ => Bool.eq_iff_iff.mpr (by simp)
  have hproducts : List.zipWith (· * ·) (idx.map f) (idx.map mask) =
      idx.map fun k => f k * mask k := by
    rw [List.zipWith_map, List.zipWith_self]
  have hnum : numCompared true (idx.map mask) =
      ((idx.filter fun k => mask k = 1).length : K) - 1 := by
    rw [numCompared, sum_map_mask h01, if_pos rfl]
  rw [promptBaseline, hproducts, maskedSums_eq, hnum, List.map_map, List.getElem?_map,
    List.length_map, List.getElem?_range hlt, Option.map_some, Function.comp_apply, compared,
    if_pos rfl, List.eraseIdx_map, hothers, sum_map_mul_mask h01]

/-! ## The rows -/

section Rows
variable {prompts : List P} {rewards validMask : List K} {sqrt : K → K} {p : P} {j : ℕ}

omit [DecidableEq P] [LinearOrder K] in
/-- A row is valid where the mask is one. -/
theorem getD_eq_one_iff (i : ℕ) : validMask.getD i 0 = 1 ↔ validMask[i]? = some 1 := by
  rw [List.getD_eq_getElem?_getD]
  cases validMask[i]? with
  | none => simp
  | some v => simp

omit [DecidableEq P] [LinearOrder K] in
theorem getD_mask (h01 : ∀ v ∈ validMask, v = 0 ∨ v = 1) (i : ℕ) :
    validMask.getD i 0 = 0 ∨ validMask.getD i 0 = 1 := by
  rw [List.getD_eq_getElem?_getD]
  cases hi : validMask[i]? with
  | none => exact .inl rfl
  | some v => exact h01 v (List.mem_of_getElem? hi)

theorem validIdx_eq (prompts : List P) (validMask : List K) (p : P) :
    ((promptIdx prompts p).filter fun i => validMask.getD i 0 = 1) =
      validIdx prompts validMask p :=
  List.filter_congr fun i _ => decide_eq_decide.mpr (getD_eq_one_iff i)

theorem otherValidRewards_eq (hlength : rewards.length = prompts.length) :
    otherValidRewards prompts rewards validMask p j =
      ((validIdx prompts validMask p).filter fun i => i ≠ j).map fun i => rewards.getD i 0 := by
  refine select_eq_map_getD ?_ 0
  intro i hi
  rw [hlength]
  exact lt_of_mem_promptIdx (List.mem_of_mem_filter (List.mem_of_mem_filter hi))

variable (sqrt) in
/-- The baseline and the deviation of a row of a group with at least two valid rows, by the
rewards that it should be compared with. -/
theorem row_eq (hrewards : rewards.length = prompts.length)
    (hmask : validMask.length = prompts.length) (h01 : ∀ v ∈ validMask, v = 0 ∨ v = 1)
    [IsStrictOrderedRing K] (hj : prompts[j]? = some p)
    (htwo : 2 ≤ (validIdx prompts validMask p).length) :
    let result := calculateBaselineAndStdPerPrompt sqrt prompts rewards validMask true none
    let others := otherValidRewards prompts rewards validMask p j
    let numValid : K := (validIdx prompts validMask p).length - 1
    result.1[j]? = some (others.sum / numValid) ∧
      result.2[j]? = some (sqrt (((others.map (· ^ 2)).sum / numValid -
        (others.sum / numValid) ^ 2) * (numValid / (numValid - 1)))) := by
  intro result others numValid
  have hidx : j ∈ promptIdx prompts p := mem_promptIdx.mpr hj
  have hnd : (promptIdx prompts p).Nodup := promptIdx_nodup ..
  obtain ⟨i, hi⟩ := List.mem_iff_getElem?.mp hidx
  have hlt : ∀ k ∈ promptIdx prompts p, k < prompts.length := fun k => lt_of_mem_promptIdx
  have hread : ∀ xs : List K, xs.length = prompts.length →
      select xs (promptIdx prompts p) = (promptIdx prompts p).map fun k => xs.getD k 0 :=
    fun xs hxs => select_eq_map_getD (fun k hk => hxs ▸ hlt k hk) 0
  have hsum : (select validMask (promptIdx prompts p)).sum =
      ((validIdx prompts validMask p).length : K) := by
    rw [hread validMask hmask, sum_map_mask (getD_mask h01), validIdx_eq]
  have hvalid : ¬(select validMask (promptIdx prompts p)).sum ≤ 1 := by
    rw [hsum, not_le]
    exact_mod_cast htwo
  have hothers : ∀ f : ℕ → K, ((((promptIdx prompts p).filter fun k => k ≠ j).filter
      fun k => validMask.getD k 0 = 1).map f) =
        ((validIdx prompts validMask p).filter fun k => k ≠ j).map f := by
    intro f
    rw [List.filter_comm, validIdx_eq]
  have hstd : ((none : Option (List K)).getD rewards).length = prompts.length := hrewards
  obtain ⟨hbaselines, hstds⟩ := select_group sqrt true hrewards hmask hstd
    (List.mem_of_getElem? hj) hvalid
  have hlengths := length_calculateBaselineAndStdPerPrompt sqrt prompts rewards validMask true
    none
  have hat : ∀ xs : List K, xs.length = rewards.length →
      (select xs (promptIdx prompts p))[i]? = xs[j]? := by
    intro xs hxs
    rw [getElem?_select (fun k hk => by rw [hxs, hrewards]; exact hlt k hk), hi]
    rfl
  rw [hread _ hrewards, hread _ hmask] at hbaselines
  rw [hread _ hstd, hread _ hmask] at hstds
  have hsquares : ((promptIdx prompts p).map fun k => rewards.getD k 0).map (· ^ 2) =
      (promptIdx prompts p).map fun k => rewards.getD k 0 ^ 2 := by
    rw [List.map_map]
    rfl
  have hmean := getElem?_promptBaseline (getD_mask h01) (fun k => rewards.getD k 0) hnd hi
  have hsquare := getElem?_promptBaseline (getD_mask h01) (fun k => rewards.getD k 0 ^ 2) hnd hi
  rw [hothers, validIdx_eq, ← otherValidRewards_eq hrewards] at hmean
  rw [hothers, validIdx_eq] at hsquare
  have hothersSquare : ((validIdx prompts validMask p).filter fun k => k ≠ j).map
      (fun k => rewards.getD k 0 ^ 2) = others.map (· ^ 2) := by
    rw [show others = _ from otherValidRewards_eq hrewards, List.map_map]
    rfl
  rw [hothersSquare] at hsquare
  have hnum : numCompared true ((promptIdx prompts p).map fun k => validMask.getD k 0) =
      numValid := by
    rw [numCompared, sum_map_mask (getD_mask h01), validIdx_eq, if_pos rfl]
  have hdeviation : (promptStd sqrt true ((promptIdx prompts p).map fun k => rewards.getD k 0)
      ((promptIdx prompts p).map fun k => validMask.getD k 0))[i]? =
        some (sqrt (((others.map (· ^ 2)).sum / numValid - (others.sum / numValid) ^ 2) *
          (numValid / (numValid - 1)))) := by
    rw [promptStd, List.getElem?_zipWith, hsquares, hsquare, hmean, hnum]
  constructor
  · rw [← hat _ hlengths.1]
    exact (congrArg (fun l => l[i]?) hbaselines).trans hmean
  · rw [← hat _ hlengths.2]
    exact (congrArg (fun l => l[i]?) hstds).trans hdeviation

/-! ## When the rows leave one out -/

omit [DecidableEq P] in
/-- The variance in one pass is the unbiased variance. -/
theorem sampleVariance_eq [IsStrictOrderedRing K] {xs : List K} (h : xs ≠ []) :
    sampleVariance xs = unbiasedVariance xs := by
  have hlength : (xs.length : K) ≠ 0 := by
    rw [Nat.cast_ne_zero]
    exact fun hzero => h (List.length_eq_zero_iff.mp hzero)
  rw [sampleVariance, sum_sq_sub_mean h, div_mul_div_cancel₀ hlength]
  rfl

omit [DecidableEq P] in
theorem unbiasedVariance_nonneg [IsStrictOrderedRing K] {xs : List K} (h : xs ≠ []) :
    0 ≤ unbiasedVariance xs := by
  have hlength : (1 : K) ≤ xs.length := by
    exact_mod_cast List.length_pos_iff.mpr h
  apply div_nonneg
  · apply List.sum_nonneg
    intro y hy
    obtain ⟨x, -, rfl⟩ := List.mem_map.mp hy
    exact sq_nonneg _
  · linarith

/-- A valid row has the mean and the variance of the others. -/
theorem leavesOneOut_of_valid (hrewards : rewards.length = prompts.length)
    (hmask : validMask.length = prompts.length) (h01 : ∀ v ∈ validMask, v = 0 ∨ v = 1)
    [IsStrictOrderedRing K] (hsqrt : ∀ x, 0 ≤ x → sqrt x ^ 2 = x) (hj : prompts[j]? = some p)
    (htwo : 2 ≤ (validIdx prompts validMask p).length) (hvalid : validMask[j]? = some 1) :
    LeavesOneOut prompts rewards validMask
      (calculateBaselineAndStdPerPrompt sqrt prompts rewards validMask true none) p j := by
  obtain ⟨hbaseline, hstd⟩ := row_eq sqrt hrewards hmask h01 hj htwo
  have hmem : j ∈ validIdx prompts validMask p :=
    List.mem_filter.mpr ⟨mem_promptIdx.mpr hj, decide_eq_true hvalid⟩
  have hnd : (validIdx prompts validMask p).Nodup := (promptIdx_nodup ..).filter _
  have hlength : (otherValidRewards prompts rewards validMask p j).length =
      (validIdx prompts validMask p).length - 1 := by
    rw [otherValidRewards_eq hrewards, List.length_map, ← List.length_erase_of_mem hmem,
      hnd.erase_eq_filter]
    exact congrArg List.length (List.filter_congr fun k _ => Bool.eq_iff_iff.mpr (by simp))
  have hne : otherValidRewards prompts rewards validMask p j ≠ [] := by
    rw [← List.length_pos_iff]
    omega
  have hnum : ((validIdx prompts validMask p).length : K) - 1 =
      (otherValidRewards prompts rewards validMask p j).length := by
    rw [hlength, Nat.cast_sub (by omega), Nat.cast_one]
  rw [hnum] at hbaseline hstd
  refine ⟨hbaseline, _, hstd, ?_⟩
  have hvariance := sampleVariance_eq hne
  have hnonneg := unbiasedVariance_nonneg hne
  rw [← hvariance] at hnonneg ⊢
  exact hsqrt _ hnonneg

omit [DecidableEq P] in
/-- Sums divided by one less than the number of the values agree with the mean and the variance
only for zeros. -/
theorem one_less_iff [IsStrictOrderedRing K] (hsqrt : ∀ x, 0 ≤ x → sqrt x ^ 2 = x)
    {xs : List K} (htwo : 2 ≤ xs.length) :
    (xs.sum / (xs.length - 1) = mean xs ∧
      sqrt (((xs.map (· ^ 2)).sum / (xs.length - 1) - (xs.sum / (xs.length - 1)) ^ 2) *
        ((xs.length - 1) / (xs.length - 1 - 1))) ^ 2 = unbiasedVariance xs) ↔
      ∀ x ∈ xs, x = 0 := by
  have hlength : (2 : K) ≤ xs.length := by exact_mod_cast htwo
  have hpos : (0 : K) < xs.length - 1 := by linarith
  have hsquares : (xs.map fun x => (x - 0) ^ 2).sum = (xs.map (· ^ 2)).sum := by simp
  have hnonneg : 0 ≤ (xs.map (· ^ 2)).sum := by
    apply List.sum_nonneg
    intro y hy
    obtain ⟨x, -, rfl⟩ := List.mem_map.mp hy
    exact sq_nonneg _
  constructor
  · rintro ⟨hmean, hstd⟩
    have hsum : xs.sum = 0 := by
      rw [mean, div_eq_div_iff hpos.ne' (by linarith)] at hmean
      linarith
    have hzero : mean xs = 0 := by rw [mean, hsum, zero_div]
    rw [unbiasedVariance, hzero, hsquares, hsum, zero_div, zero_pow two_ne_zero, sub_zero,
      div_mul_div_cancel₀ hpos.ne'] at hstd
    have hthree : (0 : K) ≤ xs.length - 1 - 1 := by linarith
    rw [hsqrt _ (div_nonneg hnonneg hthree)] at hstd
    apply (sum_sq_nonpos_iff xs 0).mp
    rw [hsquares]
    rcases hthree.eq_or_lt with hone | hmore
    · rw [← hone, div_zero, eq_comm, div_eq_zero_iff] at hstd
      exact (hstd.resolve_right hpos.ne').le
    · rw [div_eq_div_iff hmore.ne' hpos.ne'] at hstd
      linarith
  · intro hall
    have hsum : xs.sum = 0 := List.sum_eq_zero hall
    have hsquare : (xs.map (· ^ 2)).sum = 0 := by
      apply List.sum_eq_zero
      intro y hy
      obtain ⟨x, hx, rfl⟩ := List.mem_map.mp hy
      rw [hall x hx, zero_pow two_ne_zero]
    have hzero : mean xs = 0 := by rw [mean, hsum, zero_div]
    rw [unbiasedVariance, hzero, hsquares, hsum, hsquare]
    simp only [zero_div, zero_pow two_ne_zero, sub_zero, zero_mul]
    exact ⟨trivial, hsqrt 0 le_rfl⟩

/-- A row that is not valid has the mean and the variance just when the valid rewards of its
prompt are zero. -/
theorem leavesOneOut_iff_of_invalid (hrewards : rewards.length = prompts.length)
    (hmask : validMask.length = prompts.length) (h01 : ∀ v ∈ validMask, v = 0 ∨ v = 1)
    [IsStrictOrderedRing K] (hsqrt : ∀ x, 0 ≤ x → sqrt x ^ 2 = x) (hj : prompts[j]? = some p)
    (htwo : 2 ≤ (validIdx prompts validMask p).length) (hinvalid : validMask[j]? ≠ some 1) :
    LeavesOneOut prompts rewards validMask
        (calculateBaselineAndStdPerPrompt sqrt prompts rewards validMask true none) p j ↔
      ∀ r ∈ select rewards (validIdx prompts validMask p), r = 0 := by
  obtain ⟨hbaseline, hstd⟩ := row_eq sqrt hrewards hmask h01 hj htwo
  have hothers : otherValidRewards prompts rewards validMask p j =
      select rewards (validIdx prompts validMask p) := by
    rw [otherValidRewards, List.filter_eq_self.mpr]
    intro i hi
    refine decide_eq_true fun hij => hinvalid ?_
    rw [← hij]
    exact of_decide_eq_true (List.mem_filter.mp hi).2
  have hlength : (select rewards (validIdx prompts validMask p)).length =
      (validIdx prompts validMask p).length := by
    apply length_select
    intro i hi
    rw [hrewards]
    exact lt_of_mem_promptIdx (List.mem_of_mem_filter hi)
  rw [LeavesOneOut, hbaseline, hstd, hothers, ← hlength, ← one_less_iff hsqrt (hlength ▸ htwo)]
  simp only [Option.some.injEq, exists_eq_left']

/-- The rows of the prompts with at least two valid rows have the mean and the variance of the
other valid rewards just when each of them is valid or has only zeros to be compared with. -/
theorem leavesOneOut_iff (hrewards : rewards.length = prompts.length)
    (hmask : validMask.length = prompts.length) (h01 : ∀ v ∈ validMask, v = 0 ∨ v = 1)
    [IsStrictOrderedRing K] (hsqrt : ∀ x, 0 ≤ x → sqrt x ^ 2 = x) :
    (∀ (j : ℕ) p, prompts[j]? = some p → 2 ≤ (validIdx prompts validMask p).length →
      LeavesOneOut prompts rewards validMask
        (calculateBaselineAndStdPerPrompt sqrt prompts rewards validMask true none) p j) ↔
    ∀ (j : ℕ) p, prompts[j]? = some p → 2 ≤ (validIdx prompts validMask p).length →
      validMask[j]? = some 1 ∨ ∀ r ∈ select rewards (validIdx prompts validMask p), r = 0 := by
  refine forall₄_congr fun j p hj htwo => ?_
  by_cases hvalid : validMask[j]? = some 1
  · simp only [hvalid, true_or, iff_true]
    exact leavesOneOut_of_valid hrewards hmask h01 hsqrt hj htwo hvalid
  · simp only [hvalid, false_or]
    exact leavesOneOut_iff_of_invalid hrewards hmask h01 hsqrt hj htwo hvalid

theorem leavesOneOut_iff_real :
    (∀ (j : ℕ) p, ["p", "p", "p"][j]? = some p →
      2 ≤ (validIdx ["p", "p", "p"] [(1 : ℝ), 1, 0] p).length →
      LeavesOneOut ["p", "p", "p"] [(1 : ℝ), 0, 2] [1, 1, 0]
        (calculateBaselineAndStdPerPrompt Real.sqrt ["p", "p", "p"] [1, 0, 2] [1, 1, 0] true none)
        p j) ↔
    ∀ (j : ℕ) p, ["p", "p", "p"][j]? = some p →
      2 ≤ (validIdx ["p", "p", "p"] [(1 : ℝ), 1, 0] p).length →
      [(1 : ℝ), 1, 0][j]? = some 1 ∨
        ∀ r ∈ select [(1 : ℝ), 0, 2] (validIdx ["p", "p", "p"] [(1 : ℝ), 1, 0] p), r = 0 :=
  leavesOneOut_iff rfl rfl (by simp) fun _ hx => Real.sq_sqrt hx

/-- A row that is not valid has twice the mean of its two valid others for its baseline. -/
theorem not_leavesOneOut_invalid :
    ¬LeavesOneOut ["p", "p", "p"] [(1 : ℚ), 1, 0] [1, 1, 0]
      (calculateBaselineAndStdPerPrompt Rat.sqrt ["p", "p", "p"] [1, 1, 0] [1, 1, 0] true none)
      "p" 2 :=
  fun h => absurd h.1 (by decide +kernel)

end Rows

end Field

end NemoRL.Algorithms
