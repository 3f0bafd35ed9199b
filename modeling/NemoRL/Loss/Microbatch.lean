import Mathlib.Data.List.FinRange
import NemoRL.Lib.Except
import NemoRL.Loss.ClippedPGSpec
import NemoRL.Loss.Wrapper

/-!
# The policy gradient loss of microbatches

The losses of the microbatches of a batch add up to the loss of the batch, whose counts they
are given, except for the negative log likelihood of the samples with a positive reward: it
is a mean with the count of the microbatch. With a weight on it the losses add up for all
log probabilities exactly when no two microbatches have tokens that count for it.

## Main definitions

* `Sample.MasksNonneg` — masks are not negative.
* `Sample.HasCorrectToken` — a token counts for the negative log likelihood.

## Main results

* `microbatches_sum_iff` — when the losses of the microbatches add up.
* `wrapper_eq_call_iff` — when those of the sequences add up.
-/

namespace NemoRL.Loss

open Lib

variable {T K : Type} [Field K] [LinearOrder K]

/-! ## Samples -/

/-- The masks of a sample are not negative. -/
structure Sample.MasksNonneg (sample : Sample T K) : Prop where
  sampleMask : 0 ≤ sample.sampleMask
  tokenMask : ∀ m ∈ sample.tokenMask, 0 ≤ m

/-- A token that counts for the negative log likelihood. -/
def Sample.HasCorrectToken (sample : Sample T K) : Prop :=
  (∃ reward, sample.reward = some reward ∧ 0 < reward) ∧ 0 < sample.sampleMask ∧
    ∃ m ∈ sample.tokenMask.drop 1, 0 < m

theorem Sample.MasksNonneg.withUnfiltered {sample : Sample T K} (h : sample.MasksNonneg)
    (unfiltered : Option (List K)) : (sample.withUnfiltered unfiltered).MasksNonneg where
  sampleMask := h.sampleMask
  tokenMask := h.tokenMask

theorem Sample.MasksNonneg.row {sample : Sample T K} (h : sample.MasksNonneg) (force : Bool)
    (lp : List K) : (sample.row force lp).MasksNonneg where
  sampleMask := h.sampleMask
  tokenMask := by
    intro token htoken
    obtain ⟨t, -, rfl⟩ := List.mem_map.mp htoken
    simp only [List.getD_eq_getElem?_getD]
    cases hm : sample.tokenMask[t + 1]? with
    | none => exact le_rfl
    | some m => exact h.tokenMask m (List.mem_of_getElem? hm)

theorem Sample.hasCorrectToken_row {sample : Sample T K} {lp : List K} (force : Bool)
    (h : lp.length = sample.tokenMask.length - 1) :
    (sample.row force lp).HasCorrectToken ↔ sample.HasCorrectToken := by
  refine and_congr_right fun _ => and_congr_right fun _ => ?_
  constructor
  · rintro ⟨token, htoken, hpos⟩
    obtain ⟨t, ht, rfl⟩ := List.mem_map.mp htoken
    have hlt : t + 1 < sample.tokenMask.length := by
      rw [List.mem_range] at ht
      omega
    have hmask : sample.tokenMask.getD (t + 1) 0 = sample.tokenMask[t + 1] := by
      rw [List.getD_eq_getElem?_getD, List.getElem?_eq_getElem hlt, Option.getD_some]
    refine ⟨sample.tokenMask[t + 1], List.mem_iff_getElem?.mpr ⟨t, ?_⟩, hmask ▸ hpos⟩
    rw [List.getElem?_drop, Nat.add_comm, List.getElem?_eq_getElem hlt]
  · rintro ⟨m, hm, hpos⟩
    obtain ⟨t, ht⟩ := List.mem_iff_getElem?.mp hm
    rw [List.getElem?_drop, Nat.add_comm] at ht
    have hlt := (List.getElem?_eq_some_iff.mp ht).1
    refine ⟨_, List.mem_map_of_mem (List.mem_range.mpr (by omega : t < lp.length)), ?_⟩
    simpa only [List.getD_eq_getElem?_getD, ht, Option.getD_some] using hpos

/-! ## Microbatches -/

section Microbatches
variable [IsStrictOrderedRing K] (exp : K → K) {fn : ClippedPGLossFn K} {B : ℕ}
  {mbs : List (List (Fin B))}

theorem sum_microbatches {M : Type} [AddCommMonoid M] (hmbs : mbs.flatten.Perm (List.finRange B))
    (f : Fin B → M) :
    (mbs.map fun mb => (mb.map f).sum).sum = ((List.finRange B).map f).sum := by
  rw [← (hmbs.map f).sum_eq, List.map_flatten, List.sum_flatten, List.map_map]
  rfl

omit [IsStrictOrderedRing K] in
/-- The losses of microbatches without the negative log likelihood add up. -/
theorem sum_policyLoss (hmbs : mbs.flatten.Perm (List.finRange B)) (rows : Fin B → Row K)
    (klType : KlType) (gs gt : K) :
    (mbs.map fun mb => fn.policyLoss exp klType gs gt (mb.map rows)).sum =
      fn.policyLoss exp klType gs gt ((List.finRange B).map rows) := by
  rw [ClippedPGLossFn.policyLoss_eq_sum, List.map_map, ← sum_microbatches hmbs]
  refine congrArg List.sum (List.map_congr_left fun mb _ => ?_)
  rw [ClippedPGLossFn.policyLoss_eq_sum, List.map_map]

omit [LinearOrder K] [IsStrictOrderedRing K] in
theorem zipWith_row (lp : Fin B → List K) (data : Fin B → Sample T K) (mb : List (Fin B)) :
    List.zipWith (Sample.row fn.forceOnPolicyRatio) (mb.map lp) (mb.map data) =
      mb.map fun i => (data i).row fn.forceOnPolicyRatio (lp i) := by
  rw [List.zipWith_map, List.zipWith_self]

/-- Microbatches of which at most one has tokens that count for the negative log likelihood. -/
def AtMostOneCorrect (data : Fin B → Sample T K) (mbs : List (List (Fin B))) : Prop :=
  mbs.Pairwise fun mb mb' =>
    ¬((∃ i ∈ mb, (data i).HasCorrectToken) ∧ ∃ i ∈ mb', (data i).HasCorrectToken)

section Correct
variable {data : Fin B → Sample T K} (hdata : ∀ i, (data i).MasksNonneg)
  {lp : Fin B → List K} (hlp : ∀ i, (lp i).length = (data i).tokenMask.length - 1)
include hdata hlp

/-- A microbatch counts for the negative log likelihood when one of its tokens does. -/
theorem sum_correctToks_eq_zero (force : Bool) (mb : List (Fin B)) :
    (mb.map fun i => ((data i).row force (lp i)).correctToks).sum = 0 ↔
      ¬∃ i ∈ mb, (data i).HasCorrectToken := by
  have hnonneg : ∀ i, 0 ≤ ((data i).row force (lp i)).correctToks :=
    fun i => ((hdata i).row force (lp i)).correctToks
  have hzero : ∀ i, ((data i).row force (lp i)).correctToks = 0 ↔ ¬(data i).HasCorrectToken := by
    intro i
    rw [((hdata i).row force (lp i)).correctToks_eq_zero,
      Sample.hasCorrectToken_row force (hlp i)]
  constructor
  · rintro hsum ⟨i, hi, hcorrect⟩
    have hmem := List.mem_map_of_mem (f := fun i => ((data i).row force (lp i)).correctToks) hi
    have hle := List.single_le_sum (by simpa using fun j _ => hnonneg j) _ hmem
    exact (hzero i).mp (le_antisymm (hle.trans_eq hsum) (hnonneg i)) hcorrect
  · intro hnone
    refine List.sum_eq_zero fun x hx => ?_
    obtain ⟨i, hi, rfl⟩ := List.mem_map.mp hx
    exact (hzero i).mpr fun hcorrect => hnone ⟨i, hi, hcorrect⟩

theorem atMostOneCorrect_iff (force : Bool) :
    AtMostOneCorrect data mbs ↔ (mbs.map fun mb =>
      (mb.map fun i => ((data i).row force (lp i)).correctToks).sum).Pairwise
        fun n m => n = 0 ∨ m = 0 := by
  rw [List.pairwise_map, AtMostOneCorrect]
  refine iff_of_eq (congrArg (fun r => mbs.Pairwise r) (funext fun mb => funext fun mb' => ?_))
  simp only [sum_correctToks_eq_zero hdata hlp, not_and_or]

/-- The negative log likelihoods of microbatches of which at most one counts. -/
theorem sum_nllLoss (hmbs : mbs.flatten.Perm (List.finRange B)) (h : AtMostOneCorrect data mbs) :
    (mbs.map fun mb => fn.nllLoss (mb.map fun i =>
        (data i).row fn.forceOnPolicyRatio (lp i))).sum =
      fn.nllLoss ((List.finRange B).map fun i => (data i).row fn.forceOnPolicyRatio (lp i)) := by
  have hzero : ∀ mb : List (Fin B),
      (mb.map fun i => ((data i).row fn.forceOnPolicyRatio (lp i)).correctToks).sum = 0 →
      (mb.map fun i => ((data i).row fn.forceOnPolicyRatio (lp i)).correctNll).sum = 0 := by
    intro mb hsum
    have hnone := (sum_correctToks_eq_zero hdata hlp fn.forceOnPolicyRatio mb).mp hsum
    refine List.sum_eq_zero fun x hx => ?_
    obtain ⟨i, hi, rfl⟩ := List.mem_map.mp hx
    have hrow := (hdata i).row fn.forceOnPolicyRatio (lp i)
    refine hrow.correctNll (hrow.correctToks_eq_zero.mpr fun hcorrect => hnone ⟨i, hi, ?_⟩)
    exact (Sample.hasCorrectToken_row fn.forceOnPolicyRatio (hlp i)).mp hcorrect
  have hpair : (mbs.map fun mb =>
      ((mb.map fun i => ((data i).row fn.forceOnPolicyRatio (lp i)).correctToks).sum,
        (mb.map fun i => ((data i).row fn.forceOnPolicyRatio (lp i)).correctNll).sum)).Pairwise
        fun p q => p.1 = 0 ∨ q.1 = 0 := by
    have htoks := (atMostOneCorrect_iff hdata hlp fn.forceOnPolicyRatio).mp h
    rw [List.pairwise_map] at htoks ⊢
    exact htoks
  have hparts := sum_smoothedMean (1 / 10 ^ 8) (by simpa using fun mb _ => hzero mb) hpair
  simp only [List.map_map, Function.comp_def] at hparts
  rw [sum_microbatches hmbs, sum_microbatches hmbs] at hparts
  simp only [ClippedPGLossFn.nllLoss_eq, List.map_map, Function.comp_def]
  by_cases hweight : 0 < fn.positiveExampleNllWeight
  · simp only [if_pos hweight]
    exact hparts
  · simp [if_neg hweight]

omit [IsStrictOrderedRing K] hdata hlp in
/-- Where every log probability is minus one, each token adds what it counts. -/
theorem correctNll_neg_one (force : Bool) (i : Fin B) (n : ℕ) :
    ((data i).row force (List.replicate n (-1))).correctNll =
      ((data i).row force (List.replicate n (-1))).correctToks := by
  rw [Row.correctNll_eq, Row.correctToks_eq]
  congr 2
  refine List.map_congr_left fun token htoken => ?_
  obtain ⟨t, ht, rfl⟩ := List.mem_map.mp htoken
  have hlt : t < n := by simpa using ht
  simp [List.getD_eq_getElem?_getD, hlt]

/-- The losses of microbatches of which at most one counts for the negative log likelihood. -/
theorem sum_value (hmbs : mbs.flatten.Perm (List.finRange B)) (klType : KlType) (gs gt : K)
    (h : fn.positiveExampleNllWeight ≤ 0 ∨ AtMostOneCorrect data mbs) :
    (mbs.map fun mb => fn.value exp klType gs gt (mb.map fun i =>
        (data i).row fn.forceOnPolicyRatio (lp i))).sum =
      fn.value exp klType gs gt ((List.finRange B).map fun i =>
        (data i).row fn.forceOnPolicyRatio (lp i)) := by
  simp only [ClippedPGLossFn.value]
  rw [List.sum_map_add, sum_policyLoss exp hmbs, List.sum_map_mul_left]
  congr 1
  cases h with
  | inl hweight => simp [ClippedPGLossFn.nllLoss_eq, not_lt_of_ge hweight]
  | inr hone => rw [sum_nllLoss hdata hlp hmbs hone]

end Correct

/-- Where every log probability is minus one, the losses of microbatches of which two count
for the negative log likelihood exceed the loss of the batch. -/
theorem value_lt_sum {data : Fin B → Sample T K} (hdata : ∀ i, (data i).MasksNonneg)
    (hmbs : mbs.flatten.Perm (List.finRange B)) (klType : KlType) (gs gt : K)
    (hweight : 0 < fn.positiveExampleNllWeight) (h : ¬AtMostOneCorrect data mbs) :
    fn.value exp klType gs gt ((List.finRange B).map fun i => (data i).row fn.forceOnPolicyRatio
        (List.replicate ((data i).tokenMask.length - 1) (-1))) <
      (mbs.map fun mb => fn.value exp klType gs gt (mb.map fun i =>
        (data i).row fn.forceOnPolicyRatio
          (List.replicate ((data i).tokenMask.length - 1) (-1)))).sum := by
  have hlp : ∀ i, (List.replicate ((data i).tokenMask.length - 1) (-1 : K)).length =
      (data i).tokenMask.length - 1 := fun i => List.length_replicate
  have hcount : ∀ mb : List (Fin B), 0 ≤ (mb.map fun i => ((data i).row fn.forceOnPolicyRatio
      (List.replicate ((data i).tokenMask.length - 1) (-1))).correctToks).sum := by
    intro mb
    refine List.sum_nonneg fun x hx => ?_
    obtain ⟨i, hi, rfl⟩ := List.mem_map.mp hx
    exact ((hdata i).row _ _).correctToks
  have hlt := smoothedMean_lt_sum (show (0 : K) < 1 / 10 ^ 8 by positivity)
    (by simpa using fun mb _ => hcount mb)
    (fun hpair => h ((atMostOneCorrect_iff hdata hlp fn.forceOnPolicyRatio).mpr hpair))
  rw [List.map_map, sum_microbatches hmbs] at hlt
  simp only [ClippedPGLossFn.value]
  rw [List.sum_map_add, sum_policyLoss exp hmbs, List.sum_map_mul_left]
  refine (add_lt_add_iff_left _).mpr ((mul_lt_mul_iff_right₀ hweight).mpr ?_)
  simp only [ClippedPGLossFn.nllLoss_eq, if_pos hweight, List.map_map, Function.comp_def,
    correctNll_neg_one]
  exact hlt

/-- With a positive weight on the negative log likelihood, the losses of microbatches add up
to the loss of the batch for all log probabilities exactly when at most one microbatch has
tokens of samples with a positive reward. -/
theorem microbatches_sum_iff (hfn : fn.Returns) {data : Fin B → Sample T K}
    (hdata : ∀ i, (data i).MasksNonneg) (hmbs : mbs.flatten.Perm (List.finRange B)) :
    (∀ lp : Fin B → List K, (∀ i, (lp i).length = (data i).tokenMask.length - 1) → ∀ gs gt,
      ∃ loss, fn.call exp ((List.finRange B).map lp) ((List.finRange B).map data) gs gt =
          .ok loss ∧
        ∃ losses, mbs.mapM (fun mb => fn.call exp (mb.map lp) (mb.map data) gs gt) =
          .ok losses ∧ losses.sum = loss) ↔
      fn.positiveExampleNllWeight ≤ 0 ∨ AtMostOneCorrect data mbs := by
  obtain ⟨klType, hchecks⟩ := hfn
  have hcall : ∀ (lp : Fin B → List K) gs gt (mb : List (Fin B)),
      fn.call exp (mb.map lp) (mb.map data) gs gt = .ok (fn.value exp klType gs gt
        (mb.map fun i => (data i).row fn.forceOnPolicyRatio (lp i))) := by
    intro lp gs gt mb
    rw [ClippedPGLossFn.call_eq exp fn hchecks, zipWith_row]
  have hcalls : ∀ (lp : Fin B → List K) gs gt,
      mbs.mapM (fun mb => fn.call exp (mb.map lp) (mb.map data) gs gt) =
        .ok (mbs.map fun mb => fn.value exp klType gs gt
          (mb.map fun i => (data i).row fn.forceOnPolicyRatio (lp i))) :=
    fun lp gs gt => mapM_of_forall fun mb _ => hcall lp gs gt mb
  constructor
  · intro hsum
    by_contra hcond
    rw [not_or, not_le] at hcond
    obtain ⟨loss, hloss, losses, hlosses, heq⟩ := hsum
      (fun i => List.replicate ((data i).tokenMask.length - 1) (-1))
      (fun i => List.length_replicate) 0 0
    rw [hcall] at hloss
    rw [hcalls] at hlosses
    have hlt := value_lt_sum exp hdata hmbs klType 0 0 hcond.1 hcond.2
    rw [Except.ok.inj hloss, Except.ok.inj hlosses, heq] at hlt
    exact lt_irrefl _ hlt
  · intro hcond lp hlp gs gt
    exact ⟨_, hcall lp gs gt _, _, hcalls lp gs gt,
      sum_value exp hdata hlp hmbs klType gs gt hcond⟩

end Microbatches

/-! ## Sequences -/

section Sequences

omit [LinearOrder K] in
theorem getD_take {xs : List K} {n t : ℕ} (h : t < n) : (xs.take n).getD t 0 = xs.getD t 0 := by
  rw [List.getD_eq_getElem?_getD, List.getElem?_take, if_pos h, List.getD_eq_getElem?_getD]

omit [LinearOrder K] in
theorem getD_cutTensor {xs : List K} {n t : ℕ} (h : t < n) :
    (cutTensor n xs).getD t 0 = xs.getD t 0 := by
  rw [cutTensor]
  by_cases hlen : 1 < xs.length
  · rw [if_pos hlen, getD_take h]
  · rw [if_neg hlen]

omit [LinearOrder K] in
/-- The row of a sample that is masked from a length on extends that of the sample that is cut
off at this length. -/
theorem Sample.row_cut {sample : Sample T K} {len : ℕ} (force : Bool) (lp : List K)
    (unfiltered : Option (List K)) (hmask : ∀ t, len ≤ t → sample.tokenMask.getD t 0 = 0) :
    ((sample.withUnfiltered unfiltered).row force lp).Extends
      (((sample.cut len).withUnfiltered (unfiltered.map (List.take (len - 1)))).row force
        (lp.take (len - 1))) where
  sampleMask := rfl
  reward := rfl
  tokens := by
    have hlength : (lp.take (len - 1)).length + (lp.length - (lp.take (len - 1)).length) =
        lp.length := by
      rw [List.length_take]
      omega
    have hunfiltered : (unfiltered.map (List.take (len - 1))).getD (lp.take (len - 1)) =
        (unfiltered.getD lp).take (len - 1) := by
      cases unfiltered <;> rfl
    simp only [Sample.row, Sample.withUnfiltered, hunfiltered]
    conv =>
      congr
      ext extra
      rw [← hlength, List.range_add, List.map_append]
    refine ⟨_, congrArg₂ _ (List.map_congr_left fun t ht => ?_) rfl, ?_⟩
    · have ht : t < len - 1 := by
        rw [List.mem_range, List.length_take] at ht
        omega
      have ht' : t + 1 < len := by omega
      simp only [Sample.cut, getD_take ht, getD_cutTensor ht']
    · intro token htoken
      rw [List.map_map] at htoken
      obtain ⟨t, ht, rfl⟩ := List.mem_map.mp htoken
      refine hmask ((lp.take (len - 1)).length + t + 1) ?_
      rw [List.mem_range, List.length_take] at ht
      rw [List.length_take]
      omega

/-- A packed batch whose sequences have been prepared. The log probabilities of a sequence
are the first ones of the row of its sample in the whole batch, up to its last token, and
the sample is masked from there on. -/
structure PreparedBatch (L : Type) {B : ℕ} (data : Fin B → Sample T K) where
  seqLengths : Fin B → ℕ
  cuSeqlensQPadded : Option (List ℕ)
  cpSize : ℕ
  prepareFn : (ℕ → List L) → Sample T K → Except PyError (List K × Sample T K)
  nextTokenLogits : ℕ → List L
  logprobs : Fin B → List K
  unfiltered : Fin B → Option (List K)
  length_logprobs : ∀ i, (logprobs i).length = (data i).tokenMask.length - 1
  masked : ∀ i t, seqLengths i ≤ t → (data i).tokenMask.getD t 0 = 0
  length_padded : (bounds (cuSeqlensQPadded.getD
    (cumulative 0 ((List.finRange B).map seqLengths)))).length = B
  prepared : ∀ i : Fin B,
    prepareSequence (cumulative 0 ((List.finRange B).map seqLengths)) cuSeqlensQPadded cpSize
        prepareFn nextTokenLogits ((List.finRange B).map data) i =
      .ok ((logprobs i).take (seqLengths i - 1),
        ((data i).cut (seqLengths i)).withUnfiltered
          ((unfiltered i).map (List.take (seqLengths i - 1))))

namespace PreparedBatch
variable {L : Type} {B : ℕ} {data : Fin B → Sample T K} (batch : PreparedBatch L data)
  (lossFn : LossFn T K)

/-- The loss of the whole batch. -/
def loss : Except PyError K :=
  lossFn ((List.finRange B).map batch.logprobs)
    ((List.finRange B).map fun i => (data i).withUnfiltered (batch.unfiltered i))

/-- The sum of the losses of the sequences. -/
def packedLoss : Except PyError K :=
  sequencePackingLossWrapper lossFn (cumulative 0 ((List.finRange B).map batch.seqLengths))
    batch.cuSeqlensQPadded batch.cpSize batch.prepareFn batch.nextTokenLogits
    ((List.finRange B).map data)

variable {lossFn} {value : List (Row K) → K} {force : Bool}
  (hvalue : ∀ logprobs data, lossFn logprobs data =
    .ok (value (List.zipWith (Sample.row force) logprobs data)))
include hvalue

omit [LinearOrder K] in
/-- The loss of the whole batch in terms of its rows. -/
theorem loss_eq : batch.loss lossFn = .ok (value ((List.finRange B).map fun i =>
    ((data i).withUnfiltered (batch.unfiltered i)).row force (batch.logprobs i))) := by
  rw [loss, hvalue, List.zipWith_map, List.zipWith_self]

omit [LinearOrder K] in
/-- The sum of the losses of the sequences in terms of the rows of the whole batch. -/
theorem packedLoss_eq
    (hextends : ∀ row' row : Row K, row'.Extends row → value [row'] = value [row]) :
    batch.packedLoss lossFn = .ok (((List.finRange B).map fun i => value
      [((data i).withUnfiltered (batch.unfiltered i)).row force (batch.logprobs i)]).sum) := by
  let rowValue : Fin B → K := fun i => value
    [((data i).withUnfiltered (batch.unfiltered i)).row force (batch.logprobs i)]
  have hrange : (List.range B).map (fun i => if h : i < B then rowValue ⟨i, h⟩ else 0) =
      (List.finRange B).map rowValue := by
    rw [← List.map_coe_finRange_eq_range, List.map_map]
    exact List.map_congr_left fun i _ => dif_pos i.isLt
  have hsum : batch.packedLoss lossFn = .ok (((List.range (bounds
      (batch.cuSeqlensQPadded.getD (cumulative 0 ((List.finRange B).map
        batch.seqLengths)))).length).map fun i =>
          if h : i < B then rowValue ⟨i, h⟩ else 0).sum) := by
    refine sequencePackingLossWrapper_eq fun i hi => ?_
    rw [batch.length_padded] at hi
    refine ⟨_, _, batch.prepared ⟨i, hi⟩, ?_⟩
    rw [hvalue, dif_pos hi]
    refine congrArg Except.ok (hextends _ _ ?_).symm
    exact Sample.row_cut force _ _ (batch.masked ⟨i, hi⟩)
  rwa [batch.length_padded, hrange] at hsum

omit [LinearOrder K] in
/-- A loss to which each row adds its own loss is the sum of the losses of the sequences. -/
theorem packedLoss_eq_loss
    (hextends : ∀ row' row : Row K, row'.Extends row → value [row'] = value [row])
    (hsum : ∀ rows, value rows = (rows.map fun row => value [row]).sum) :
    batch.packedLoss lossFn = batch.loss lossFn := by
  rw [batch.packedLoss_eq hvalue hextends, batch.loss_eq hvalue, hsum, List.map_map]
  rfl

end PreparedBatch

/-- The data of a packed batch with log probabilities that were prepared without cutting off
anything. -/
def PreparedBatch.uncut (L : Type) {B : ℕ} (data : Fin B → Sample T K) : PreparedBatch L data where
  seqLengths i := (data i).tokenMask.length
  cuSeqlensQPadded := some (cumulative 0 (List.replicate B 0))
  cpSize := 1
  prepareFn := fun _ sample => .ok (List.replicate (sample.tokenMask.length - 1) (-1),
    sample.withUnfiltered none)
  nextTokenLogits := fun _ => []
  logprobs i := List.replicate ((data i).tokenMask.length - 1) (-1)
  unfiltered _ := none
  length_logprobs i := List.length_replicate
  masked i t ht := by
    rw [List.getD_eq_getElem?_getD, List.getElem?_eq_none ht]
    rfl
  length_padded := by simp
  prepared i := by
    have hcut : ((data i).cut (data i).tokenMask.length).tokenMask.length =
        (data i).tokenMask.length := by
      simp [Sample.cut, cutTensor]
    have hsample : ((List.finRange B).map data)[(i : ℕ)]? = some (data i) := by simp
    rw [prepareSequence_eq (n := (data i).tokenMask.length) (p := 0) rfl (by simp)
      (by simp) hsample (by simp), hcut, List.take_of_length_le (by simp)]
    rfl

/-- With a positive weight on the negative log likelihood, the losses of the sequences of
every packed batch of some data add up to the loss of the batch exactly when at most one
sample with a positive reward has tokens that count. -/
theorem packedLoss_eq_loss_iff [IsStrictOrderedRing K] (L : Type) (exp : K → K)
    {fn : ClippedPGLossFn K} (hfn : fn.Returns) {B : ℕ} {data : Fin B → Sample T K}
    (hdata : ∀ i, (data i).MasksNonneg) :
    (∀ (batch : PreparedBatch L data) (gs gt : K), ∃ loss,
        batch.loss (fun logprobs data => fn.call exp logprobs data gs gt) = .ok loss ∧
        batch.packedLoss (fun logprobs data => fn.call exp logprobs data gs gt) = .ok loss) ↔
      fn.positiveExampleNllWeight ≤ 0 ∨
        AtMostOneCorrect data ((List.finRange B).map fun i => [i]) := by
  obtain ⟨klType, hchecks⟩ := hfn
  have hsingles : ((List.finRange B).map fun i => [i]).flatten.Perm (List.finRange B) := by
    simp [← List.flatMap_def]
  have hvalue : ∀ gs gt (logprobs : List (List K)) (data : List (Sample T K)),
      fn.call exp logprobs data gs gt = .ok (fn.value exp klType gs gt
        (List.zipWith (Sample.row fn.forceOnPolicyRatio) logprobs data)) :=
    fun gs gt logprobs data => fn.call_eq exp hchecks logprobs data gs gt
  have hextends : ∀ gs gt (row' row : Row K), row'.Extends row →
      fn.value exp klType gs gt [row'] = fn.value exp klType gs gt [row] :=
    fun gs gt row' row h => fn.value_extends exp h klType gs gt
  constructor
  · intro hsum
    by_contra hcond
    rw [not_or, not_le] at hcond
    obtain ⟨loss, hwhole, hpacked⟩ := hsum (PreparedBatch.uncut L data) 0 0
    rw [PreparedBatch.loss_eq _ (hvalue 0 0)] at hwhole
    rw [PreparedBatch.packedLoss_eq _ (hvalue 0 0) (hextends 0 0)] at hpacked
    have hlt := value_lt_sum exp (fun i => (hdata i).withUnfiltered none) hsingles klType 0 0
      hcond.1 (fun h => hcond.2 h)
    rw [List.map_map] at hlt
    exact hlt.ne ((Except.ok.inj hwhole).trans (Except.ok.inj hpacked).symm)
  · intro hcond batch gs gt
    have hdata' : ∀ i, ((data i).withUnfiltered (batch.unfiltered i)).MasksNonneg :=
      fun i => (hdata i).withUnfiltered (batch.unfiltered i)
    have hrows := sum_value exp hdata' batch.length_logprobs hsingles klType gs gt hcond
    rw [List.map_map] at hrows
    refine ⟨_, batch.loss_eq (hvalue gs gt), ?_⟩
    rw [batch.packedLoss_eq (hvalue gs gt) (hextends gs gt), ← hrows]
    rfl

end Sequences

/-! ## Microbatch invariance -/

/-- The losses of microbatches and those of the sequences of packed batches add up to the loss
of the batch, for all log probabilities, exactly when there is no weight on the negative log
likelihood of samples with a positive reward or only one part has tokens that count for it. -/
theorem microbatchInvariant_iff [IsStrictOrderedRing K] (L : Type) (exp : K → K)
    {fn : ClippedPGLossFn K} (hfn : fn.Returns) {B : ℕ} {data : Fin B → Sample T K}
    (hdata : ∀ i, (data i).MasksNonneg) :
    (∀ mbs : List (List (Fin B)), mbs.flatten.Perm (List.finRange B) →
      ((∀ lp : Fin B → List K, (∀ i, (lp i).length = (data i).tokenMask.length - 1) → ∀ gs gt,
        ∃ loss, fn.call exp ((List.finRange B).map lp) ((List.finRange B).map data) gs gt =
            .ok loss ∧
          ∃ losses, mbs.mapM (fun mb => fn.call exp (mb.map lp) (mb.map data) gs gt) =
            .ok losses ∧ losses.sum = loss) ↔
        fn.positiveExampleNllWeight ≤ 0 ∨ AtMostOneCorrect data mbs)) ∧
    ((∀ (batch : PreparedBatch L data) (gs gt : K), ∃ loss,
        batch.loss (fun logprobs data => fn.call exp logprobs data gs gt) = .ok loss ∧
        batch.packedLoss (fun logprobs data => fn.call exp logprobs data gs gt) = .ok loss) ↔
      fn.positiveExampleNllWeight ≤ 0 ∨
        AtMostOneCorrect data ((List.finRange B).map fun i => [i])) :=
  ⟨fun _ hmbs => microbatches_sum_iff exp hfn hdata hmbs, packedLoss_eq_loss_iff L exp hfn hdata⟩

/-- A sample with a positive reward and one token. -/
def rewardedSample : Sample ℕ ℚ where
  inputIds := [7, 8]
  tokenMask := [0, 1]
  sampleMask := 1
  advantages := [0, 2]
  prevLogprobs := [0, -1]
  generationLogprobs := [0, -1]
  referencePolicyLogprobs := [0, -1]
  reward := some 1

/-- Without a weight the losses of two microbatches add up. -/
theorem microbatchInvariant_iff_default :
    ∃ fn, ClippedPGLossFn.init ({} : ClippedPGLossConfig ℚ) = .ok fn ∧
      ∀ gs gt, ∃ loss, fn.call (1 + ·) [[-1], [-2]] [rewardedSample, rewardedSample] gs gt =
          .ok loss ∧
        ∃ losses, [[0], [1]].mapM (fun mb : List (Fin 2) => fn.call (1 + ·)
          (mb.map fun i => [[-1], [-2]].getD i []) (mb.map fun _ => rewardedSample) gs gt) =
            .ok losses ∧ losses.sum = loss := by
  refine ⟨_, rfl, fun gs gt => ?_⟩
  have hmasks : rewardedSample.MasksNonneg := ⟨by decide +kernel, by decide +kernel⟩
  refine ((microbatchInvariant_iff ℕ (fun x : ℚ => 1 + x) ?_ (fun _ : Fin 2 => hmasks)).1
    [[0], [1]] (by decide)).mpr (.inl ?_) (fun i => [[-1], [-2]].getD i []) (by decide) gs gt
  · exact ⟨.k3, rfl⟩
  · exact le_rfl

/-- With a weight the losses of two microbatches do not add up. -/
theorem microbatches_not_sum :
    ∃ fn, ClippedPGLossFn.init { positiveExampleNllWeight := (1 : ℚ) } = .ok fn ∧
      ∃ loss part, fn.call (1 + ·) [[-1], [-1]] [rewardedSample, rewardedSample] 2 2 = .ok loss ∧
        fn.call (1 + ·) [[-1]] [rewardedSample] 2 2 = .ok part ∧ part + part ≠ loss := by
  refine ⟨_, rfl, _, _, rfl, rfl, ?_⟩
  decide +kernel

end NemoRL.Loss
