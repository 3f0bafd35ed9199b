import NemoRL.Distributed.VocabParallel
import NemoRL.Distributed.VocabTopkSpec
import NemoRL.Distributed.PackedLogprobs
import NemoRL.Lib.LogSoftmax
import Mathlib.Logic.Equiv.Fin.Basic

/-!
# Losses over a sharded vocabulary and their gradients

Over the real numbers the reductions give what one rank computes that holds the whole vocabulary,
and each backward pass returns the gradient of its forward pass, whatever flows into it. The
chunks of a sequence make no difference.

## Main definitions

* `wholeRow` — the row of logits of a position over the whole vocabulary.
* `logitsOf` — the logits as a function of all their entries.

## Main results

* `computeDistributedLogSoftmax_eq` — the reductions compute the logarithm of the softmax.
* `distributedLogprob_gradient` — log probabilities of tokens and their gradient.
* `getNextTokenLogprobs_parallel` — the log probabilities when the sequence is split as well.
* `distributedCrossEntropy_gradient` — the cross entropy and its gradient.
-/

namespace NemoRL.Distributed

open Lib

/-! ## Rows over the whole vocabulary -/

section Rows
variable {R B S V : ℕ} [NeZero R] [NeZero V]

/-- A row of which each rank holds a part. -/
def wholeRow (z : Fin R → Fin V → ℝ) (t : Fin (R * V)) : ℝ := z t.divNat t.modNat

omit [NeZero R] [NeZero V] in
theorem sum_wholeRow (f : ℝ → ℝ) (z : Fin R → Fin V → ℝ) :
    ∑ t, f (wholeRow z t) = ∑ rank, ∑ v, f (z rank v) := by
  rw [← Fintype.sum_prod_type']
  exact (Fintype.sum_equiv finProdFinEquiv.symm _ _ fun t => rfl)

theorem subtractMax_eq (z : Fin R → Fin V → ℝ) :
    ∃ m, ∀ rank v, subtractMax z rank v = z rank v - m := ⟨_, fun _ _ => rfl⟩

/-- The reductions compute the logarithm of the softmax of the whole row. -/
theorem computeDistributedLogSoftmax_eq (z : Fin R → Fin V → ℝ) (t : Fin (R * V)) :
    computeDistributedLogSoftmax Real.exp Real.log z t.divNat t.modNat =
      logSoftmax (wholeRow z) t := by
  have : Nonempty (Fin (R * V)) := ⟨t⟩
  obtain ⟨m, hm⟩ := subtractMax_eq z
  have hsum : allReduceSum (fun rank => ∑ v, Real.exp (z rank v - m)) =
      ∑ t, Real.exp (wholeRow z t - m) := (sum_wholeRow (fun x => Real.exp (x - m)) z).symm
  rw [← logSoftmax_sub_const (wholeRow z) m t]
  simp only [computeDistributedLogSoftmax, hm, hsum]
  rfl

/-- The same for the softmax. -/
theorem computeDistributedSoftmax_eq (z : Fin R → Fin V → ℝ) (t : Fin (R * V)) :
    computeDistributedSoftmax Real.exp z t.divNat t.modNat = softmax (wholeRow z) t := by
  have : Nonempty (Fin (R * V)) := ⟨t⟩
  obtain ⟨m, hm⟩ := subtractMax_eq z
  have hsum : allReduceSum (fun rank => ∑ v, Real.exp (z rank v - m)) =
      ∑ t, Real.exp (wholeRow z t - m) := (sum_wholeRow (fun x => Real.exp (x - m)) z).symm
  rw [← exp_logSoftmax (wholeRow z) t, ← logSoftmax_sub_const (wholeRow z) m t, exp_logSoftmax]
  simp only [computeDistributedSoftmax, hm, hsum]
  rfl

/-! ## The tokens of a rank -/

omit [NeZero R] [NeZero V] in
/-- A rank holds the tokens of its part. -/
theorem targetMask_eq (rank : Fin R) (t : Fin (R * V)) :
    targetMask V rank (t : ℤ) = decide (rank ≠ t.divNat) := by
  have hV : 0 < V := Nat.pos_of_ne_zero fun h0 => by
    subst h0
    exact t.elim0
  have hle : (rank : ℕ) ≤ t / V ↔ (rank : ℕ) * V ≤ t := Nat.le_div_iff_mul_le hV
  have hlt : t / V < (rank : ℕ) + 1 ↔ (t : ℕ) < ((rank : ℕ) + 1) * V := Nat.div_lt_iff_lt_mul hV
  have hdiv : (t.divNat : ℕ) = t / V := rfl
  rw [targetMask, Bool.eq_iff_iff, Bool.or_eq_true, decide_eq_true_eq, decide_eq_true_eq,
    decide_eq_true_eq, Ne, Fin.ext_iff, hdiv]
  norm_cast
  omega

omit [NeZero R] in
theorem maskedTarget_eq (t : Fin (R * V)) : maskedTarget t.divNat (t : ℤ) = t.modNat := by
  have hmask : targetMask V t.divNat (t : ℤ) = false := by
    rw [targetMask_eq]
    simp
  have hsplit : (t : ℤ) - (t.divNat : ℕ) * V = ((t % V : ℕ) : ℤ) := by
    have hdiv : (t.divNat : ℕ) = t / V := rfl
    rw [hdiv, sub_eq_iff_eq_add']
    exact_mod_cast (Nat.div_add_mod' (t : ℕ) V).symm
  rw [maskedTarget, hmask, if_neg Bool.false_ne_true, hsplit, Int.toNat_natCast]
  ext
  simp

omit [NeZero R] in
/-- The ranks together read the entry of a token. -/
theorem sum_localLogprob (f : Fin R → Fin V → ℝ) (t : Fin (R * V)) :
    allReduceSum (fun rank => localLogprob (f rank) rank (t : ℤ)) = f t.divNat t.modNat := by
  have hother : ∀ rank, rank ≠ t.divNat → localLogprob (f rank) rank (t : ℤ) = 0 := by
    intro rank hrank
    rw [localLogprob, targetMask_eq, if_pos (decide_eq_true hrank)]
  have hown : localLogprob (f t.divNat) t.divNat (t : ℤ) = f t.divNat t.modNat := by
    rw [localLogprob, targetMask_eq, if_neg (by simp), maskedTarget_eq]
  rw [allReduceSum, Finset.sum_eq_single t.divNat (fun rank _ => hother rank) (by simp), hown]

omit [NeZero R] in
/-- One entry of the whole row is chosen. -/
theorem isChosen_eq (rank : Fin R) (v : Fin V) (t : Fin (R * V)) :
    (isChosen rank (t : ℤ) v : ℝ) = if finProdFinEquiv (rank, v) = t then 1 else 0 := by
  have hplace : finProdFinEquiv (rank, v) = t ↔ rank = t.divNat ∧ v = t.modNat := by
    rw [← Equiv.eq_symm_apply]
    exact Prod.ext_iff
  rw [isChosen, targetMask_eq]
  by_cases hrank : rank = t.divNat
  · subst hrank
    rw [if_neg (by simp), maskedTarget_eq]
    exact if_congr (by simp [hplace]) rfl rfl
  · rw [if_pos (decide_eq_true hrank), if_neg fun h => hrank (hplace.mp h).1]

theorem logSoftmax_place (z : Fin R → Fin V → ℝ) (rank : Fin R) (v : Fin V) :
    computeDistributedLogSoftmax Real.exp Real.log z rank v =
      logSoftmax (wholeRow z) (finProdFinEquiv (rank, v)) := by
  have hplace : ((finProdFinEquiv (rank, v)).divNat, (finProdFinEquiv (rank, v)).modNat) =
      (rank, v) := finProdFinEquiv.symm_apply_apply (rank, v)
  rw [← computeDistributedLogSoftmax_eq]
  rw [(Prod.mk.inj hplace).1, (Prod.mk.inj hplace).2]

theorem softmax_place (z : Fin R → Fin V → ℝ) (rank : Fin R) (v : Fin V) :
    computeDistributedSoftmax Real.exp z rank v =
      softmax (wholeRow z) (finProdFinEquiv (rank, v)) := by
  have hplace : ((finProdFinEquiv (rank, v)).divNat, (finProdFinEquiv (rank, v)).modNat) =
      (rank, v) := finProdFinEquiv.symm_apply_apply (rank, v)
  rw [← computeDistributedSoftmax_eq]
  rw [(Prod.mk.inj hplace).1, (Prod.mk.inj hplace).2]

theorem exp_logSoftmax_place (z : Fin R → Fin V → ℝ) (rank : Fin R) (v : Fin V) :
    Real.exp (computeDistributedLogSoftmax Real.exp Real.log z rank v) =
      softmax (wholeRow z) (finProdFinEquiv (rank, v)) := by
  have : Nonempty (Fin (R * V)) := ⟨finProdFinEquiv (rank, v)⟩
  rw [logSoftmax_place, exp_logSoftmax]

/-! ## All positions -/

/-- The logits as a function of all their entries. -/
def logitsOf (x : (Fin B × Fin S) × Fin R × Fin V → ℝ) : VocabLogits ℝ R B S V :=
  fun rank b s v => x ((b, s), rank, v)

/-- The row of a position. -/
def rowAt (x : (Fin B × Fin S) × Fin R × Fin V → ℝ) (b : Fin B) (s : Fin S) :
    Fin (R * V) → ℝ := wholeRow fun rank => logitsOf x rank b s

omit [NeZero R] [NeZero V] in
/-- The gradient of a sum over the positions, each of which reads its own row. -/
theorem hasGradient_positions {F : Fin B → Fin S → (Fin (R * V) → ℝ) → ℝ}
    {g : Fin B → Fin S → Fin (R * V) → ℝ} {x : (Fin B × Fin S) × Fin R × Fin V → ℝ}
    (hF : ∀ b s, HasGradient (F b s) (g b s) (rowAt x b s)) :
    HasGradient (fun x => ∑ b, ∑ s, F b s (rowAt x b s))
      (fun i => g i.1.1 i.1.2 (finProdFinEquiv i.2)) x := by
  have hrows := hasGradient_rows (x := x) (F := fun p : Fin B × Fin S => fun y =>
    F p.1 p.2 (wholeRow fun rank v => y (rank, v))) (g := fun p i => g p.1 p.2 (finProdFinEquiv i))
    fun p => HasGradient.comp_equiv finProdFinEquiv.symm (hF p.1 p.2)
  simp only [Fintype.sum_prod_type] at hrows
  exact hrows

end Rows

/-! ## Chunks -/

section Chunks
variable {B S : ℕ} {β : Type} {chunkSize : ℕ}

theorem flatMap_chunkPositions (S : ℕ) (hchunk : 0 < chunkSize) :
    (seqChunks S chunkSize).flatMap (chunkPositions S) = List.finRange S := by
  apply List.map_injective_iff.mpr Fin.val_injective
  rw [List.map_flatMap, List.map_coe_finRange_eq_range, ← flatMap_range'_seqChunks S hchunk]
  refine List.flatMap_congr fun p hp => ?_
  obtain ⟨i, -, rfl⟩ := List.mem_map.mp hp
  rw [chunkPositions, slice, List.map_take, List.map_drop, List.map_coe_finRange_eq_range,
    List.range_eq_range', List.drop_range', Nat.zero_add, Nat.mul_one]
  exact List.take_range'_of_length_ge (by dsimp only; omega)

/-- The chunks put together are the tensor of all positions. -/
theorem catChunks_eq {noChunk : PyError} {f : Fin B → Fin S → β} (hS : 0 < S)
    (hchunk : 0 < chunkSize) : catChunks chunkSize noChunk f = .ok fun b => List.ofFn (f b) := by
  have hsome : seqChunks S chunkSize ≠ [] := by
    intro hnil
    have hcover := flatMap_chunkPositions S hchunk
    rw [hnil, List.flatMap_nil] at hcover
    have hlength := congrArg List.length hcover
    rw [List.length_finRange, List.length_nil] at hlength
    omega
  rw [catChunks, if_neg hchunk.ne']
  dsimp only
  rw [if_neg (by simpa using hsome)]
  congr 1
  funext b
  rw [List.flatMap_map, ← List.map_flatMap, flatMap_chunkPositions S hchunk, List.ofFn_eq_map]

/-- Every position is written. -/
theorem writeChunks_eq {init f : Fin B → Fin S → β} (hchunk : 0 < chunkSize) :
    writeChunks chunkSize init f = .ok f := by
  have hfold : ∀ (chunks : List (ℕ × ℕ)) (x : Fin B → Fin S → β) (b : Fin B) (s : Fin S),
      chunks.foldl (fun gradInput p => fun b s =>
        if s ∈ chunkPositions S p then f b s else gradInput b s) x b s =
      if s ∈ chunks.flatMap (chunkPositions S) then f b s else x b s := by
    intro chunks
    induction chunks with
    | nil => simp
    | cons p chunks ih =>
      intro x b s
      rw [List.foldl_cons, ih, List.flatMap_cons]
      by_cases hlater : s ∈ chunks.flatMap (chunkPositions S)
      · rw [if_pos hlater, if_pos (List.mem_append_right _ hlater)]
      · rw [if_neg hlater]
        exact if_congr (by simp [hlater]) rfl rfl
  rw [writeChunks, if_neg hchunk.ne']
  congr 1
  funext b s
  rw [hfold, flatMap_chunkPositions S hchunk, if_pos (List.mem_finRange s)]

end Chunks

/-! ## Log probabilities of tokens -/

section Logprob
variable {R B S V : ℕ} [NeZero R] [NeZero V]

/-- The ranks compute the log probability over the whole vocabulary. -/
theorem distributedLogprob_position (z : Fin R → Fin V → ℝ) (t : Fin (R * V)) :
    DistributedLogprob.position Real.exp Real.log z (t : ℤ) = logSoftmax (wholeRow z) t := by
  rw [DistributedLogprob.position, sum_localLogprob, computeDistributedLogSoftmax_eq]

theorem hasGradient_logprobs (target : Fin B → Fin S → Fin (R * V)) (g : Fin B → Fin S → ℝ)
    (x : (Fin B × Fin S) × Fin R × Fin V → ℝ) :
    HasGradient (fun x => ∑ b, ∑ s, g b s * logSoftmax (rowAt x b s) (target b s))
      (fun i => DistributedLogprob.backward Real.exp Real.log (logitsOf x)
        (fun b s => (target b s : ℤ)) g i.2.1 i.1.1 i.1.2 i.2.2) x := by
  have hpositions := hasGradient_positions (x := x)
    (F := fun b s z => g b s * logSoftmax z (target b s)) fun b s =>
      have : Nonempty (Fin (R * V)) := ⟨target b s⟩
      (hasGradient_logSoftmax (rowAt x b s) (target b s)).const_mul (g b s)
  have hcoeff : ∀ i : (Fin B × Fin S) × Fin R × Fin V,
      DistributedLogprob.backward Real.exp Real.log (logitsOf x)
        (fun b s => (target b s : ℤ)) g i.2.1 i.1.1 i.1.2 i.2.2 =
      g i.1.1 i.1.2 * ((if finProdFinEquiv i.2 = target i.1.1 i.1.2 then 1 else 0) -
        softmax (rowAt x i.1.1 i.1.2) (finProdFinEquiv i.2)) := by
    intro i
    rw [DistributedLogprob.backward, DistributedLogprob.savedSoftmax, exp_logSoftmax_place,
      isChosen_eq, mul_comm]
    rfl
  simp only [hcoeff]
  exact hpositions

/-- `DistributedLogprob` computes on every rank the log probabilities of the tokens over the whole
vocabulary, and its backward pass returns the part of the gradient that belongs to the logits of
the rank. In chunks of any size the results are the same. -/
theorem distributedLogprob_gradient (target : Fin B → Fin S → Fin (R * V)) (g : Fin B → Fin S → ℝ)
    (x : (Fin B × Fin S) × Fin R × Fin V → ℝ) {chunkSize : ℕ} (hS : 0 < S)
    (hchunk : 0 < chunkSize) :
    (∀ b s, DistributedLogprob.forward Real.exp Real.log (logitsOf x)
      (fun b s => (target b s : ℤ)) b s = logSoftmax (rowAt x b s) (target b s)) ∧
    HasGradient (fun x => ∑ b, ∑ s, g b s * logSoftmax (rowAt x b s) (target b s))
      (fun i => DistributedLogprob.backward Real.exp Real.log (logitsOf x)
        (fun b s => (target b s : ℤ)) g i.2.1 i.1.1 i.1.2 i.2.2) x ∧
    ChunkedDistributedLogprob.forward Real.exp Real.log (logitsOf x)
        (fun b s => (target b s : ℤ)) chunkSize =
      .ok (fun b => List.ofFn (DistributedLogprob.forward Real.exp Real.log (logitsOf x)
        (fun b s => (target b s : ℤ)) b)) ∧
    ∀ rank, ChunkedDistributedLogprob.backward Real.exp Real.log (logitsOf x)
        (fun b s => (target b s : ℤ)) chunkSize g rank =
      .ok (DistributedLogprob.backward Real.exp Real.log (logitsOf x)
        (fun b s => (target b s : ℤ)) g rank) := by
  refine ⟨fun b s => distributedLogprob_position (fun rank => logitsOf x rank b s) (target b s),
    hasGradient_logprobs target g x, ?_, fun rank => ?_⟩
  · exact catChunks_eq hS hchunk
  · exact writeChunks_eq hchunk

/-- With all logits zero and two tokens. -/
theorem distributedLogprob_gradient_two :
    DistributedLogprob.forward Real.exp Real.log
      (logitsOf (0 : (Fin 1 × Fin 1) × Fin 2 × Fin 1 → ℝ)) (fun _ _ => 1) 0 0 = -Real.log 2 := by
  have hforward := (distributedLogprob_gradient (R := 2) (V := 1) (fun _ _ => 1) (fun _ _ => 0)
    (0 : (Fin 1 × Fin 1) × Fin 2 × Fin 1 → ℝ) Nat.one_pos Nat.one_pos).1 0 0
  simpa [logSoftmax, rowAt, wholeRow, logitsOf] using hforward

/-- The log probabilities of the tokens of a sequence after the first one. With the sequence split
over any number of ranks and the vocabulary over any number of others, every rank computes what the
softmax over the whole vocabulary gives at each position for the token after it. -/
theorem getNextTokenLogprobs_parallel {logits : List (Fin R → Fin V → ℝ)}
    {inputIds : List (Fin (R * V))} {cpRank cpSize : ℕ} (hdvd : Divides cpSize logits.length)
    (hrank : cpRank < cpSize) (hlength : inputIds.length = logits.length) :
    getNextTokenLogprobsFromLogits (DistributedLogprob.position Real.exp Real.log)
        (fun rank => getTokensOnThisCpRank logits rank cpSize)
        (inputIds.map fun t : Fin (R * V) => ((t : ℕ) : ℤ)) cpRank cpSize =
      .ok (List.zipWith (fun row t => logSoftmax (wholeRow row) t) logits.dropLast
        (inputIds.drop 1)) := by
  rw [getNextTokenLogprobs_eq _ (fun _ _ => rfl) hdvd hrank (by rw [List.length_map, hlength]),
    ← List.map_drop, List.zipWith_map_right]
  simp only [distributedLogprob_position]
  have hmin : min logits.length (inputIds.drop 1).length = logits.length - 1 := by
    rw [List.length_drop, hlength]
    omega
  rw [List.zipWith_eq_zipWith_take_min, hmin, List.dropLast_eq_take,
    List.take_of_length_le (l := inputIds.drop 1) (by rw [List.length_drop, hlength])]

/-- Four positions on the second of two ranks. -/
theorem getNextTokenLogprobs_parallel_four :
    getNextTokenLogprobsFromLogits
      (DistributedLogprob.position (R := 2) (V := 1) Real.exp Real.log)
      (fun rank => getTokensOnThisCpRank (List.replicate 4 fun _ _ => 0) rank 2) [0, 1, 1, 0] 1 2 =
      .ok [-Real.log 2, -Real.log 2, -Real.log 2] := by
  have hdvd : Divides 2 (List.replicate 4 fun (_ : Fin 2) (_ : Fin 1) => (0 : ℝ)).length :=
    .inr (by decide)
  have hlogprobs := getNextTokenLogprobs_parallel hdvd (Nat.lt_succ_self 1)
    (show ([0, 1, 1, 0] : List (Fin (2 * 1))).length = _ from rfl)
  simpa [logSoftmax, wholeRow, one_add_one_eq_two] using hlogprobs

end Logprob

/-! ## Cross entropy against a teacher -/

section CrossEntropy
variable {R B S V : ℕ} [NeZero R] [NeZero V]

omit [NeZero R] [NeZero V] in
theorem sum_place (f : Fin (R * V) → ℝ) :
    ∑ rank, ∑ v, f (finProdFinEquiv (rank, v)) = ∑ t, f t := by
  rw [← Fintype.sum_prod_type']
  exact Fintype.sum_equiv finProdFinEquiv _ _ fun _ => rfl

/-- `DistributedCrossEntropy` computes the cross entropy of the softmax of a student against the
one of a teacher, and its backward pass returns the gradient for the logits of the student. -/
theorem distributedCrossEntropy_gradient (teacher : VocabLogits ℝ R B S V) (g : Fin B → Fin S → ℝ)
    (x : (Fin B × Fin S) × Fin R × Fin V → ℝ) :
    (∀ b s, DistributedCrossEntropy.forward Real.exp Real.log (logitsOf x) teacher b s =
      -∑ t, softmax (wholeRow fun rank => teacher rank b s) t * logSoftmax (rowAt x b s) t) ∧
    HasGradient (fun x => ∑ b, ∑ s,
        g b s * DistributedCrossEntropy.forward Real.exp Real.log (logitsOf x) teacher b s)
      (fun i => DistributedCrossEntropy.backward Real.exp Real.log (logitsOf x) teacher g
        i.2.1 i.1.1 i.1.2 i.2.2) x := by
  have : NeZero (R * V) := ⟨Nat.mul_ne_zero (NeZero.ne R) (NeZero.ne V)⟩
  have hforward : ∀ x b s,
      DistributedCrossEntropy.forward Real.exp Real.log (logitsOf x) teacher b s =
      -∑ t, softmax (wholeRow fun rank => teacher rank b s) t * logSoftmax (rowAt x b s) t := by
    intro x b s
    rw [DistributedCrossEntropy.forward]
    simp only [softmax_place, logSoftmax_place, allReduceSum, Finset.sum_neg_distrib]
    exact congrArg Neg.neg (sum_place fun t =>
      softmax (wholeRow fun rank => teacher rank b s) t * logSoftmax (rowAt x b s) t)
  refine ⟨hforward x, ?_⟩
  have hpositions := hasGradient_positions (x := x)
    (F := fun b s z => g b s *
      -∑ t, softmax (wholeRow fun rank => teacher rank b s) t * logSoftmax z t) fun b s =>
      (hasGradient_crossEntropy (sum_softmax (wholeRow fun rank => teacher rank b s))
        (rowAt x b s)).const_mul (g b s)
  have hcoeff : ∀ i : (Fin B × Fin S) × Fin R × Fin V,
      DistributedCrossEntropy.backward Real.exp Real.log (logitsOf x) teacher g
        i.2.1 i.1.1 i.1.2 i.2.2 =
      g i.1.1 i.1.2 * (softmax (rowAt x i.1.1 i.1.2) (finProdFinEquiv i.2) -
        softmax (wholeRow fun rank => teacher rank i.1.1 i.1.2) (finProdFinEquiv i.2)) := by
    intro i
    rw [DistributedCrossEntropy.backward]
    dsimp only
    rw [exp_logSoftmax_place, softmax_place, mul_comm]
    rfl
  simp only [hforward, hcoeff]
  exact hpositions

/-- With all logits zero and two tokens. -/
theorem distributedCrossEntropy_gradient_two :
    DistributedCrossEntropy.forward Real.exp Real.log
      (logitsOf (0 : (Fin 1 × Fin 1) × Fin 2 × Fin 1 → ℝ)) (fun _ _ _ _ => 0) 0 0 =
        Real.log 2 := by
  have hforward := (distributedCrossEntropy_gradient (R := 2) (V := 1) (fun _ _ _ _ => 0)
    (fun _ _ => 0) (0 : (Fin 1 × Fin 1) × Fin 2 × Fin 1 → ℝ)).1 0 0
  simpa [logSoftmax, softmax, rowAt, wholeRow, logitsOf] using hforward

end CrossEntropy
end NemoRL.Distributed
