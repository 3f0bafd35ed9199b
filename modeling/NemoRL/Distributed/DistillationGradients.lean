import NemoRL.Distributed.VocabGradients

/-!
# Entropy and log probabilities at several indices

Distillation compares a student with the largest logits of a teacher. It reads the log
probabilities of the student at the indices of the teacher, and it may need the entropy of the
student. Both go through the sequence in chunks in the forward and in the backward pass, and both
recompute in the backward pass what they need. Indices may repeat, and then what flows in for them
is added.

## Main results

* `chunkedDistributedEntropy_gradient` — the entropy and its gradient.
* `chunkedDistributedGatherLogprob_gradient` — the log probabilities and their gradient.
-/

namespace NemoRL.Distributed

open Lib

variable {R B S V : ℕ} [NeZero R] [NeZero V]

/-! ## Entropy -/

/-- The negative entropy of a row. -/
theorem entropy_position_eq (z : Fin R → Fin V → ℝ) :
    ChunkedDistributedEntropy.position Real.exp Real.log z =
      ∑ t, softmax (wholeRow z) t * logSoftmax (wholeRow z) t := by
  have : NeZero (R * V) := ⟨Nat.mul_ne_zero (NeZero.ne R) (NeZero.ne V)⟩
  rw [ChunkedDistributedEntropy.position]
  simp only [logSoftmax_place, exp_logSoftmax]
  exact sum_place fun t => softmax (wholeRow z) t * logSoftmax (wholeRow z) t

/-- In chunks of any size `ChunkedDistributedEntropy` computes the negative entropy of the softmax
of each position, and its backward pass returns the gradient, whatever was in the memory it writes
to. -/
theorem chunkedDistributedEntropy_gradient (g : Fin B → Fin S → ℝ)
    (emptyLike : Fin B → Fin S → Fin V → ℝ) (x : (Fin B × Fin S) × Fin R × Fin V → ℝ)
    {chunkSize : ℕ} (hS : 0 < S) (hchunk : 0 < chunkSize) :
    ChunkedDistributedEntropy.forward Real.exp Real.log (logitsOf x) chunkSize =
      .ok (fun b => List.ofFn fun s =>
        ∑ t, softmax (rowAt x b s) t * logSoftmax (rowAt x b s) t) ∧
    ∃ grad : Fin R → Fin B → Fin S → Fin V → ℝ,
      (∀ rank, ChunkedDistributedEntropy.backward Real.exp Real.log (logitsOf x) chunkSize emptyLike
        g rank = .ok (grad rank)) ∧
      HasGradient
        (fun x => ∑ b, ∑ s, g b s * ∑ t, softmax (rowAt x b s) t * logSoftmax (rowAt x b s) t)
        (fun i => grad i.2.1 i.1.1 i.1.2 i.2.2) x := by
  have : NeZero (R * V) := ⟨Nat.mul_ne_zero (NeZero.ne R) (NeZero.ne V)⟩
  constructor
  · rw [ChunkedDistributedEntropy.forward, catChunks_eq hS hchunk]
    simp only [entropy_position_eq]
    rfl
  · refine ⟨_, fun rank => writeChunks_eq hchunk, ?_⟩
    have hpositions := hasGradient_positions (x := x)
      (F := fun b s z => g b s * ∑ t, softmax z t * logSoftmax z t) fun b s =>
        (hasGradient_entropy (rowAt x b s)).const_mul (g b s)
    simp only [logSoftmax_place, exp_logSoftmax, entropy_position_eq]
    simp only [mul_comm (g _ _)] at hpositions ⊢
    exact hpositions

/-- With all logits zero and two tokens. -/
theorem chunkedDistributedEntropy_gradient_two :
    ChunkedDistributedEntropy.forward Real.exp Real.log
      (logitsOf (0 : (Fin 1 × Fin 1) × Fin 2 × Fin 1 → ℝ)) 1 = .ok fun _ => [-Real.log 2] := by
  have hforward := (chunkedDistributedEntropy_gradient (R := 2) (V := 1) (fun _ _ => 0)
    (fun _ _ _ => 0) (0 : (Fin 1 × Fin 1) × Fin 2 × Fin 1 → ℝ) Nat.one_pos Nat.one_pos).1
  simpa [logSoftmax, softmax, rowAt, wholeRow, logitsOf] using hforward

/-! ## Log probabilities at several indices -/

section Gather
open ChunkedDistributedGatherLogprob
variable {k : ℕ}

omit [NeZero R] [NeZero V] in
theorem inRange_eq (rank : Fin R) (t : Fin (R * V)) :
    inRange V rank (t : ℤ) = decide (rank = t.divNat) := by
  have hmask := targetMask_eq rank t
  rw [targetMask, Bool.eq_iff_iff, Bool.or_eq_true, decide_eq_true_eq, decide_eq_true_eq,
    decide_eq_true_eq] at hmask
  rw [inRange, Bool.eq_iff_iff, Bool.and_eq_true, decide_eq_true_eq, decide_eq_true_eq,
    decide_eq_true_eq]
  have hiff := not_congr hmask
  push Not at hiff
  rw [← hiff]

omit [NeZero R] in
theorem localIndex_eq (t : Fin (R * V)) : localIndex t.divNat (t : ℤ) = t.modNat := by
  have hplace := maskedTarget_eq t
  have hrange := inRange_eq t.divNat t
  rw [decide_eq_true rfl, inRange, Bool.and_eq_true, decide_eq_true_eq, decide_eq_true_eq] at hrange
  rw [maskedTarget, targetMask_eq, if_neg (by simp)] at hplace
  rw [localIndex, ← hplace]
  congr 2
  rw [add_mul, one_mul] at hrange
  omega

omit [NeZero R] in
/-- The place of an index on a rank that has it, and nothing elsewhere. -/
theorem gathered_place (rank : Fin R) (v : Fin V) (t : Fin (R * V)) (c : ℝ) :
    (if localIndex rank (t : ℤ) = v then c * (if inRange V rank (t : ℤ) then 1 else 0) else 0) =
      if t = finProdFinEquiv (rank, v) then c else 0 := by
  have hplace : t = finProdFinEquiv (rank, v) ↔ t.divNat = rank ∧ t.modNat = v := by
    rw [← Equiv.symm_apply_eq]
    exact Prod.ext_iff
  rw [inRange_eq]
  by_cases hrank : rank = t.divNat
  · subst hrank
    rw [localIndex_eq, decide_eq_true rfl, if_pos rfl, mul_one]
    exact if_congr (by simp [hplace]) rfl rfl
  · rw [decide_eq_false hrank, if_neg Bool.false_ne_true, mul_zero, ite_self,
      if_neg fun h => hrank (hplace.mp h).1.symm]

omit [NeZero V] in
/-- Adding numbers one after the other, each at its place. -/
theorem foldl_update_add {n : ℕ} (place : Fin n → Fin V) (c : Fin n → ℝ) (l : List (Fin n))
    (init : Fin V → ℝ) (v : Fin V) :
    l.foldl (fun f i => Function.update f (place i) (f (place i) + c i)) init v =
      init v + (l.map fun i => if place i = v then c i else 0).sum := by
  induction l generalizing init with
  | nil => simp
  | cons i l ih =>
    rw [List.foldl_cons, ih, List.map_cons, List.sum_cons, ← add_assoc]
    congr 1
    by_cases hv : place i = v
    · subst hv
      rw [Function.update_self, if_pos rfl]
    · rw [Function.update_of_ne (Ne.symm hv), if_neg hv, add_zero]

theorem gatherLogprob_forward (logits : VocabLogits ℝ R B S V)
    (indices : Fin B → Fin S → Fin k → Fin (R * V)) {chunkSize : ℕ} (hS : 0 < S)
    (hchunk : 0 < chunkSize) :
    forward Real.exp Real.log logits (fun b s i => (indices b s i : ℤ)) chunkSize =
      .ok fun b => List.ofFn fun s i =>
        logSoftmax (wholeRow fun rank => logits rank b s) (indices b s i) := by
  have hgather : ∀ (f : Fin R → Fin V → ℝ) (t : Fin (R * V)),
      allReduceSum (fun rank => f rank (localIndex rank (t : ℤ)) *
        if inRange V rank (t : ℤ) then 1 else 0) = f t.divNat t.modNat := by
    intro f t
    have hother : ∀ rank, rank ≠ t.divNat →
        f rank (localIndex rank (t : ℤ)) * (if inRange V rank (t : ℤ) then 1 else 0) = 0 := by
      intro rank hrank
      rw [inRange_eq, decide_eq_false hrank, if_neg Bool.false_ne_true, mul_zero]
    rw [allReduceSum, Finset.sum_eq_single t.divNat (fun rank _ => hother rank) (by simp),
      inRange_eq, decide_eq_true rfl, if_pos rfl, mul_one, localIndex_eq]
  rw [forward, catChunks_eq hS hchunk]
  dsimp only
  congr 1
  funext b
  congr 1
  funext s i
  rw [hgather, computeDistributedLogSoftmax_eq]

/-- In chunks of any size `ChunkedDistributedGatherLogprob` computes the log probabilities of each
position at its indices, and its backward pass returns the gradient. -/
theorem chunkedDistributedGatherLogprob_gradient (indices : Fin B → Fin S → Fin k → Fin (R * V))
    (g : Fin B → Fin S → Fin k → ℝ) (x : (Fin B × Fin S) × Fin R × Fin V → ℝ)
    {chunkSize : ℕ} (hS : 0 < S) (hchunk : 0 < chunkSize) :
    forward Real.exp Real.log (logitsOf x) (fun b s i => (indices b s i : ℤ)) chunkSize =
      .ok (fun b => List.ofFn fun s i => logSoftmax (rowAt x b s) (indices b s i)) ∧
    ∃ grad : Fin R → Fin B → Fin S → Fin V → ℝ,
      (∀ rank, backward Real.exp Real.log (logitsOf x) (fun b s i => (indices b s i : ℤ)) chunkSize
        g rank = .ok (grad rank)) ∧
      HasGradient
        (fun x => ∑ b, ∑ s, ∑ i, g b s i * logSoftmax (rowAt x b s) (indices b s i))
        (fun i => grad i.2.1 i.1.1 i.1.2 i.2.2) x := by
  have : NeZero (R * V) := ⟨Nat.mul_ne_zero (NeZero.ne R) (NeZero.ne V)⟩
  refine ⟨gatherLogprob_forward (logitsOf x) indices hS hchunk, _,
    fun rank => writeChunks_eq hchunk, ?_⟩
  have hpositions := hasGradient_positions (x := x)
    (F := fun b s z => ∑ i, g b s i * logSoftmax z (indices b s i)) fun b s =>
      hasGradient_gather (g b s) (indices b s) (rowAt x b s)
  simp only [foldl_update_add, exp_logSoftmax_place, ← Fin.sum_univ_def, gathered_place]
  exact hpositions

/-- With all logits zero, at the same index twice. -/
theorem chunkedDistributedGatherLogprob_gradient_two :
    forward Real.exp Real.log (logitsOf (0 : (Fin 1 × Fin 1) × Fin 2 × Fin 1 → ℝ))
      (fun _ _ (_ : Fin 2) => 1) 1 = .ok fun _ => [fun _ => -Real.log 2] := by
  have hforward := (chunkedDistributedGatherLogprob_gradient (R := 2) (V := 1) (k := 2)
    (fun _ _ _ => 1) (fun _ _ _ => 0) (0 : (Fin 1 × Fin 1) × Fin 2 × Fin 1 → ℝ) Nat.one_pos
    Nat.one_pos).1
  simpa [logSoftmax, rowAt, wholeRow, logitsOf] using hforward

end Gather
end NemoRL.Distributed
