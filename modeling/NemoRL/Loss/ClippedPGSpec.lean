import Mathlib.Algebra.BigOperators.Ring.List
import NemoRL.Lib.SmoothedMean
import NemoRL.Loss.ClippedPG

/-!
# The clipped policy gradient loss of rows

With global counts, the loss of a batch without the negative log likelihood is the sum of
what each row adds, and what a row adds does not depend on the positions behind its last
token.

## Main definitions

* `ClippedPGLossFn.Returns` — the configurations that pass the checks of a call.
* `ClippedPGLossFn.policyLoss` — the loss without the negative log likelihood.
* `Row.Extends` — rows that differ in masked positions behind the last token.

## Main results

* `call_eq` — the loss of a batch in terms of its rows.
* `policyLoss_eq_sum` — what each row adds.
* `value_extends` — masked positions do not count.
-/

namespace NemoRL.Loss

open Lib

variable {T K : Type} [Field K]

/-! ## Rows with masked positions -/

namespace Row

/-- A row that has further positions behind those of another, all masked. -/
structure Extends (row' row : Row K) : Prop where
  sampleMask : row'.sampleMask = row.sampleMask
  reward : row'.reward = row.reward
  tokens : ∃ extra, row'.tokens = row.tokens ++ extra ∧ ∀ token ∈ extra, token.tokenMask = 0

@[simp] theorem length_mask (row : Row K) : row.mask.length = row.tokens.length := by
  simp [mask]

omit [Field K] in
@[simp] theorem length_tokenMask (row : Row K) : row.tokenMask.length = row.tokens.length := by
  simp [tokenMask]

namespace Extends
variable {row' row : Row K}

theorem mean (h : row'.Extends row) (f : Token K → K) : row'.mean f = row.mean f := by
  obtain ⟨extra, htokens, hextra⟩ := h.tokens
  have hzero : ∀ m ∈ extra.map Token.tokenMask, m = 0 := by
    simpa using hextra
  rw [Row.mean, Row.mean, Row.tokenMask, htokens, List.map_append, List.map_append]
  exact maskedMean_append_zero _ _ (by simp) hzero

/-- A masked mean over the tokens of a row. -/
theorem maskedMean_tokens (h : row'.Extends row) (f : Token K → K) (n : Option K) :
    maskedMean (row'.tokens.map f) row'.mask n = maskedMean (row.tokens.map f) row.mask n := by
  obtain ⟨extra, htokens, hextra⟩ := h.tokens
  have hzero : ∀ m ∈ extra.map (fun token => token.tokenMask * row.sampleMask), m = 0 := by
    intro m hm
    obtain ⟨token, htoken, rfl⟩ := List.mem_map.mp hm
    rw [hextra token htoken, zero_mul]
  rw [Row.mask, Row.mask, htokens, h.sampleMask, List.map_append, List.map_append]
  exact maskedMean_append_zero _ _ (by simp) hzero

/-- A masked sum over the tokens of a row. -/
theorem sum_tokens (h : row'.Extends row) (f : Token K → K) :
    (row'.tokens.map fun token => f token * (token.tokenMask * row'.sampleMask)).sum =
      (row.tokens.map fun token => f token * (token.tokenMask * row.sampleMask)).sum := by
  obtain ⟨extra, htokens, hextra⟩ := h.tokens
  have hzero : (extra.map fun token => f token * (token.tokenMask * row.sampleMask)).sum = 0 := by
    refine List.sum_eq_zero fun x hx => ?_
    obtain ⟨token, htoken, rfl⟩ := List.mem_map.mp hx
    rw [hextra token htoken, zero_mul, mul_zero]
  rw [htokens, h.sampleMask, List.map_append, List.sum_append, hzero, add_zero]

end Extends

/-! ## Tokens of samples with a positive reward -/

section Correct
variable [LinearOrder K]

/-- How many tokens of a row count for the negative log likelihood. -/
def correctToks (row : Row K) : K := row.correctMask.sum

/-- What a row adds to the negative log likelihood. -/
def correctNll (row : Row K) : K :=
  (List.zipWith (· * ·) (row.tokens.map fun token => -token.currLogprob) row.correctMask).sum

theorem correctToks_eq (row : Row K) :
    row.correctToks = (row.tokens.map fun token => 1 * (token.tokenMask * row.sampleMask)).sum *
      row.correctSampleMask := by
  rw [correctToks, correctMask, mask, List.sum_map_mul_right, List.map_id']
  simp only [one_mul]

theorem correctNll_eq (row : Row K) :
    row.correctNll = (row.tokens.map fun token =>
      -token.currLogprob * (token.tokenMask * row.sampleMask)).sum * row.correctSampleMask := by
  rw [correctNll, correctMask, mask, List.map_map, List.zipWith_map, List.zipWith_self,
    ← List.sum_map_mul_right]
  simp only [Function.comp_apply, mul_assoc]

theorem Extends.correctToks {row' row : Row K} (h : row'.Extends row) :
    row'.correctToks = row.correctToks := by
  rw [correctToks_eq, correctToks_eq, h.sum_tokens, correctSampleMask, h.reward, correctSampleMask]

theorem Extends.correctNll {row' row : Row K} (h : row'.Extends row) :
    row'.correctNll = row.correctNll := by
  rw [correctNll_eq, correctNll_eq, h.sum_tokens, correctSampleMask, h.reward, correctSampleMask]

/-- The masks of a row are not negative. -/
structure MasksNonneg (row : Row K) : Prop where
  sampleMask : 0 ≤ row.sampleMask
  tokenMask : ∀ token ∈ row.tokens, 0 ≤ token.tokenMask

/-- A token of a sample with a positive reward that counts. -/
def HasCorrectToken (row : Row K) : Prop :=
  (∃ reward, row.reward = some reward ∧ 0 < reward) ∧ 0 < row.sampleMask ∧
    ∃ token ∈ row.tokens, 0 < token.tokenMask

variable [IsStrictOrderedRing K] {row : Row K}

theorem correctSampleMask_nonneg (row : Row K) : 0 ≤ row.correctSampleMask := by
  rw [correctSampleMask]
  cases row.reward with
  | none => exact le_rfl
  | some reward =>
    by_cases hpos : 0 < reward
    · simp [hpos]
    · simp [hpos]

theorem MasksNonneg.correctMask (h : row.MasksNonneg) : ∀ m ∈ row.correctMask, 0 ≤ m := by
  intro m hm
  rw [Row.correctMask, mask, List.map_map] at hm
  obtain ⟨token, htoken, rfl⟩ := List.mem_map.mp hm
  exact mul_nonneg (mul_nonneg (h.tokenMask token htoken) h.sampleMask)
    row.correctSampleMask_nonneg

theorem MasksNonneg.correctToks (h : row.MasksNonneg) : 0 ≤ row.correctToks :=
  List.sum_nonneg h.correctMask

/-- A row where nothing counts adds nothing. -/
theorem MasksNonneg.correctNll (h : row.MasksNonneg) (hzero : row.correctToks = 0) :
    row.correctNll = 0 := by
  refine sum_zipWith_zero fun m hm => ?_
  exact le_antisymm ((List.single_le_sum h.correctMask m hm).trans_eq hzero)
    (h.correctMask m hm)

theorem MasksNonneg.correctToks_eq_zero (h : row.MasksNonneg) :
    row.correctToks = 0 ↔ ¬row.HasCorrectToken := by
  constructor
  · rintro hzero ⟨⟨reward, hreward, hpos⟩, hsample, token, htoken, hmask⟩
    have hcorrect : row.correctSampleMask = 1 := by
      rw [correctSampleMask, hreward]
      exact if_pos hpos
    have hmem : token.tokenMask * row.sampleMask * row.correctSampleMask ∈ row.correctMask :=
      List.mem_map_of_mem (List.mem_map_of_mem htoken)
    have hle := (List.single_le_sum h.correctMask _ hmem).trans_eq hzero
    rw [hcorrect, mul_one] at hle
    exact absurd hle (not_le_of_gt (mul_pos hmask hsample))
  · intro hnone
    refine List.sum_eq_zero fun m hm => ?_
    rw [Row.correctMask, mask, List.map_map] at hm
    obtain ⟨token, htoken, rfl⟩ := List.mem_map.mp hm
    by_contra hne
    refine hnone ⟨?_, ?_, token, htoken, ?_⟩
    · cases hreward : row.reward with
      | none => simp [correctSampleMask, hreward] at hne
      | some reward =>
        refine ⟨reward, rfl, ?_⟩
        by_contra hneg
        simp [correctSampleMask, hreward, hneg] at hne
    · refine lt_of_le_of_ne h.sampleMask fun h0 => hne ?_
      simp [← h0]
    · refine lt_of_le_of_ne (h.tokenMask token htoken) fun h0 => hne ?_
      simp [← h0]

end Correct
end Row

namespace ClippedPGLossFn

/-! ## Rows add up -/

/-- With global counts, a mean is the sum of what each row adds to it. -/
theorem reduce_eq_sum (fn : ClippedPGLossFn K) (loss : Row K → Token K → K) (gs gt : K)
    (rows : List (Row K)) :
    fn.reduce loss gs gt rows = (rows.map fun row => fn.reduce loss gs gt [row]).sum := by
  cases hloss : fn.lossType with
  | tokenLevel =>
    simp only [reduce, hloss, List.flatMap_singleton]
    exact maskedMean_flatMap rows _ _ gt fun row => by simp
  | sequenceLevel =>
    simp only [reduce, hloss, List.map_singleton]
    exact maskedMean_map rows _ _ gs

variable [LinearOrder K] (exp : K → K) (fn : ClippedPGLossFn K)

/-- The loss of a batch without the negative log likelihood. -/
def policyLoss (klType : KlType) (gs gt : K) (rows : List (Row K)) : K :=
  fn.reduce (fn.actorLoss exp) gs gt rows +
    if fn.referencePolicyKlPenalty ≠ 0 then
      fn.reduce (fun _ token => fn.klLoss exp token klType) gs gt rows
    else 0

theorem policyLoss_eq_sum (klType : KlType) (gs gt : K) (rows : List (Row K)) :
    fn.policyLoss exp klType gs gt rows =
      (rows.map fun row => fn.policyLoss exp klType gs gt [row]).sum := by
  simp only [policyLoss]
  rw [List.sum_map_add, ← reduce_eq_sum]
  by_cases hkl : fn.referencePolicyKlPenalty ≠ 0
  · simp only [if_pos hkl]
    rw [← reduce_eq_sum]
  · simp [if_neg hkl]

/-! ## Masked positions -/

section Extends
variable {fn exp} {row' row : Row K} (h : row'.Extends row)
include h

omit [LinearOrder K] in
theorem ratio_extends (token : Token K) : fn.ratio exp row' token = fn.ratio exp row token := by
  simp only [ratio, h.mean]

theorem ratioClamped_extends (token : Token K) :
    fn.ratioClamped exp row' token = fn.ratioClamped exp row token := by
  simp only [ratioClamped, ratio_extends h]

theorem clipLoss_extends (token : Token K) :
    fn.clipLoss exp row' token = fn.clipLoss exp row token := by
  simp only [clipLoss, ratio_extends h, ratioClamped_extends h]

omit [LinearOrder K] in
theorem importanceWeight_extends (token : Token K) :
    fn.importanceWeight exp row' token = fn.importanceWeight exp row token := by
  have hsum := h.sum_tokens fun token => token.prevLogprob - token.generationLogprob
  simp only [importanceWeight, hsum]

theorem truncatedImportanceWeight_extends (token : Token K) :
    fn.truncatedImportanceWeight exp row' token = fn.truncatedImportanceWeight exp row token := by
  have hweight : fn.importanceWeight exp row' token = fn.importanceWeight exp row token :=
    importanceWeight_extends h token
  cases hratio : fn.truncatedImportanceSamplingRatio with
  | none => simp only [truncatedImportanceWeight, hratio, hweight]
  | some ratioMax =>
    cases htype : fn.truncatedImportanceSamplingType with
    | none => simp only [truncatedImportanceWeight, hratio, htype, hweight]
    | some type =>
      cases type <;> simp only [truncatedImportanceWeight, hratio, htype, hweight, h.mean]

theorem actorLoss_extends (token : Token K) :
    fn.actorLoss exp row' token = fn.actorLoss exp row token := by
  simp only [actorLoss, truncatedImportanceWeight_extends h, clipLoss_extends h]

omit [LinearOrder K] in
/-- What a row adds to a mean does not depend on masked positions. -/
theorem reduce_extends {loss : Row K → Token K → K} (gs gt : K)
    (hloss : ∀ token, loss row' token = loss row token) :
    fn.reduce loss gs gt [row'] = fn.reduce loss gs gt [row] := by
  have hrow : loss row' = loss row := funext hloss
  cases htype : fn.lossType with
  | tokenLevel =>
    simp only [reduce, htype, List.flatMap_singleton, hrow]
    exact h.maskedMean_tokens _ _
  | sequenceLevel => simp only [reduce, htype, List.map_singleton, hrow, h.mean, h.sampleMask]

theorem policyLoss_extends (klType : KlType) (gs gt : K) :
    fn.policyLoss exp klType gs gt [row'] = fn.policyLoss exp klType gs gt [row] := by
  have hkl : fn.reduce (fun _ token => fn.klLoss exp token klType) gs gt [row'] =
      fn.reduce (fun _ token => fn.klLoss exp token klType) gs gt [row] :=
    reduce_extends h gs gt fun _ => rfl
  simp only [policyLoss, reduce_extends h gs gt (actorLoss_extends h), hkl]

end Extends

/-- The negative log likelihood of a batch is a mean with the count of the batch itself. -/
theorem nllLoss_eq (rows : List (Row K)) :
    fn.nllLoss rows =
      if 0 < fn.positiveExampleNllWeight then
        smoothedMean (1 / 10 ^ 8) (rows.map Row.correctToks).sum (rows.map Row.correctNll).sum
      else 0 := by
  have htoks : (rows.flatMap Row.correctMask).sum = (rows.map Row.correctToks).sum := by
    induction rows with
    | nil => rfl
    | cons row rows ih =>
      rw [List.flatMap_cons, List.sum_append, ih, List.map_cons, List.sum_cons, Row.correctToks]
  have hnll := sum_zipWith_flatMap rows
    (fun row => row.tokens.map fun token => -token.currLogprob) Row.correctMask
    (fun row => by simp [Row.correctMask, Row.mask])
  simp only [nllLoss, smoothedMean, maskedMean, Option.getD_some, htoks, hnll]
  rfl

/-! ## Calls -/

/-- The configurations that pass the checks of a call. -/
def Returns : Prop := ∃ klType, fn.checks = .ok klType

/-- The loss of the rows of a batch. -/
def value (klType : KlType) (gs gt : K) (rows : List (Row K)) : K :=
  fn.policyLoss exp klType gs gt rows + fn.positiveExampleNllWeight * fn.nllLoss rows

/-- The loss of a batch in terms of its rows. -/
theorem call_eq {klType : KlType} (h : fn.checks = .ok klType) (nextTokenLogprobs : List (List K))
    (data : List (Sample T K)) (gs gt : K) :
    fn.call exp nextTokenLogprobs data gs gt = .ok (fn.value exp klType gs gt
      (List.zipWith (Sample.row fn.forceOnPolicyRatio) nextTokenLogprobs data)) := by
  simp only [call, h, bind, Except.bind, value, policyLoss]
  rfl

/-- The loss of a row does not depend on masked positions. -/
theorem value_extends {row' row : Row K} (h : row'.Extends row) (klType : KlType) (gs gt : K) :
    fn.value exp klType gs gt [row'] = fn.value exp klType gs gt [row] := by
  simp only [value, policyLoss_extends h, nllLoss_eq, List.map_singleton, h.correctToks,
    h.correctNll]

end ClippedPGLossFn
end NemoRL.Loss
