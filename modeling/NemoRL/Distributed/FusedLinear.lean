import NemoRL.Distributed.VocabGradients

/-!
# Log probabilities from hidden states

The output layer is fused with the loss, so that the logits of the whole sequence never exist at
one time. The sequence of hidden states is split over the ranks that also split the vocabulary.
A rank gathers all hidden states, computes the logits of its part of the vocabulary chunk by chunk,
and in the backward pass it computes them again. What flows back to the hidden states is summed
over the ranks, and each rank keeps what belongs to its part of the sequence.

## Main definitions

* `ChunkedDistributedHiddenStatesToLogprobs` — the forward and the backward pass.

## Main results

* `hiddenStatesToLogprobs_gradient` — both passes in terms of the whole sequence and the whole
  vocabulary.
-/

namespace NemoRL.Distributed

open Lib

/-- The hidden states that the ranks hold: for each rank, position in its part of the sequence and
position in the batch, a vector. -/
abbrev HiddenShards (K : Type) (R Sl B H : ℕ) := Fin R → Fin Sl → Fin B → Fin H → K

/-- The rows of the output layer that the ranks hold. -/
abbrev WeightShards (K : Type) (R V H : ℕ) := Fin R → Fin V → Fin H → K

namespace ChunkedDistributedHiddenStatesToLogprobs

section Passes
variable {K : Type} [Field K] [LinearOrder K] (exp log : K → K) {R Sl B H V : ℕ} [NeZero R]
  [NeZero V]

/-- The hidden states of the whole sequence, gathered from the ranks. -/
def allHiddenStates (hidden : HiddenShards K R Sl B H) (s : Fin (R * Sl)) (b : Fin B)
    (d : Fin H) : K :=
  hidden s.divNat s.modNat b d

/-- The logits of all positions. -/
def logits (hidden : HiddenShards K R Sl B H) (weight : WeightShards K R V H) :
    VocabLogits K R B (R * Sl) V :=
  fun rank b s v => ∑ d, allHiddenStates hidden s b d * weight rank v d

/-- The log probability of the token of each position. -/
def forward (hidden : HiddenShards K R Sl B H) (weight : WeightShards K R V H)
    (target : Fin B → Fin (R * Sl) → ℤ) (chunkSize : ℕ) : Except PyError (Fin B → List K) := do
  let logProbs ← catChunks chunkSize emptyCat fun b s (rank : Fin R) =>
    let logProbs := computeDistributedLogSoftmax exp log fun rank => logits hidden weight rank b s
    localLogprob (logProbs rank) rank (target b s)
  return fun b => (logProbs b).map allReduceSum

/-- What flows back to the logits that a rank computes. -/
def gradInput (hidden : HiddenShards K R Sl B H) (weight : WeightShards K R V H)
    (target : Fin B → Fin (R * Sl) → ℤ) (gradOutput : Fin B → Fin (R * Sl) → K) (rank : Fin R)
    (b : Fin B) (s : Fin (R * Sl)) (v : Fin V) : K :=
  let softmaxOutput := exp (computeDistributedLogSoftmax exp log
    (fun rank => logits hidden weight rank b s) rank v)
  (isChosen rank (target b s) v - softmaxOutput) * gradOutput b s

/-- The backward pass: what flows back to the hidden states and to the rows of the output layer
that a rank holds. -/
def backward (hidden : HiddenShards K R Sl B H) (weight : WeightShards K R V H)
    (target : Fin B → Fin (R * Sl) → ℤ) (chunkSize : ℕ)
    (gradOutput : Fin B → Fin (R * Sl) → K) (rank : Fin R) :
    Except PyError ((Fin Sl → Fin B → Fin H → K) × (Fin V → Fin H → K)) := do
  let grad := gradInput exp log hidden weight target gradOutput
  let gradInputHiddenStates ← catChunks chunkSize emptyCat fun b s (rank : Fin R) (d : Fin H) =>
    ∑ v, grad rank b s v * weight rank v d
  let gradInputOutputLayer := (seqChunks (R * Sl) chunkSize).foldl (fun acc p v d =>
    acc v d + ((chunkPositions (R * Sl) p).map fun s =>
      ∑ b, allHiddenStates hidden s b d * grad rank b s v).sum) fun _ _ => 0
  let shardedGradHiddenStates := fun (i : Fin Sl) (b : Fin B) (d : Fin H) =>
    allReduceSum fun other =>
      ((gradInputHiddenStates b).getD (rank * Sl + i) (fun _ _ => 0)) other d
  return (shardedGradHiddenStates, gradInputOutputLayer)

end Passes

/-! ## The whole sequence and the whole vocabulary -/

variable {R Sl B H V : ℕ} [NeZero R] [NeZero V]

/-- The hidden states as a function of all their entries. -/
def hiddenOf (y : Fin R × Fin Sl × Fin B × Fin H → ℝ) : HiddenShards ℝ R Sl B H :=
  fun rank i b d => y (rank, i, b, d)

/-- The output layer as a function of all its entries. -/
def weightOf (w : Fin R × Fin V × Fin H → ℝ) : WeightShards ℝ R V H :=
  fun rank v d => w (rank, v, d)

/-- The row of logits of a position. -/
noncomputable def logitsRow (hidden : HiddenShards ℝ R Sl B H) (weight : WeightShards ℝ R V H)
    (b : Fin B) (s : Fin (R * Sl)) : Fin (R * V) → ℝ :=
  wholeRow fun rank => logits hidden weight rank b s

/-- The log probabilities are those over the whole vocabulary. -/
theorem forward_eq (hidden : HiddenShards ℝ R Sl B H) (weight : WeightShards ℝ R V H)
    (target : Fin B → Fin (R * Sl) → Fin (R * V)) {chunkSize : ℕ} (hSl : 0 < Sl)
    (hchunk : 0 < chunkSize) :
    forward Real.exp Real.log hidden weight (fun b s => (target b s : ℤ)) chunkSize =
      .ok fun b => List.ofFn fun s => logSoftmax (logitsRow hidden weight b s) (target b s) := by
  have hS : 0 < R * Sl := Nat.mul_pos (NeZero.pos R) hSl
  rw [forward, catChunks_eq hS hchunk]
  refine congrArg Except.ok (funext fun b => ?_)
  rw [List.map_ofFn]
  congr 1
  funext s
  exact (sum_localLogprob _ _).trans (computeDistributedLogSoftmax_eq _ _)

/-- What flows back to the hidden states, at a position of the whole sequence. -/
noncomputable def gradHidden (grad : Fin R → Fin B → Fin (R * Sl) → Fin V → ℝ)
    (weight : WeightShards ℝ R V H) (rank : Fin R) (i : Fin Sl) (b : Fin B) (d : Fin H) : ℝ :=
  ∑ other, ∑ v, grad other b (finProdFinEquiv (rank, i)) v * weight other v d

/-- What flows back to the output layer. -/
noncomputable def gradWeight (hidden : HiddenShards ℝ R Sl B H)
    (grad : Fin R → Fin B → Fin (R * Sl) → Fin V → ℝ) (rank : Fin R) (v : Fin V) (d : Fin H) : ℝ :=
  ∑ s, ∑ b, allHiddenStates hidden s b d * grad rank b s v

omit [NeZero R] [NeZero V] in
/-- Adding up the chunks one after the other. -/
theorem foldl_add_chunks {S : ℕ} (f : Fin S → Fin V → Fin H → ℝ) (chunks : List (ℕ × ℕ))
    (init : Fin V → Fin H → ℝ) (v : Fin V) (d : Fin H) :
    chunks.foldl (fun acc p v d => acc v d + ((chunkPositions S p).map fun s => f s v d).sum)
      init v d = init v d + ((chunks.flatMap (chunkPositions S)).map fun s => f s v d).sum := by
  induction chunks generalizing init with
  | nil => simp
  | cons p chunks ih =>
    rw [List.foldl_cons, ih, List.flatMap_cons, List.map_append, List.sum_append, ← add_assoc]

/-- The chunks make no difference to the backward pass. -/
theorem backward_eq (hidden : HiddenShards ℝ R Sl B H) (weight : WeightShards ℝ R V H)
    (target : Fin B → Fin (R * Sl) → ℤ) (g : Fin B → Fin (R * Sl) → ℝ) {chunkSize : ℕ}
    (hSl : 0 < Sl) (hchunk : 0 < chunkSize) (rank : Fin R) :
    backward Real.exp Real.log hidden weight target chunkSize g rank =
      .ok (gradHidden (gradInput Real.exp Real.log hidden weight target g) weight rank,
        gradWeight hidden (gradInput Real.exp Real.log hidden weight target g) rank) := by
  have hS : 0 < R * Sl := Nat.mul_pos (NeZero.pos R) hSl
  rw [backward, catChunks_eq hS hchunk]
  refine congrArg Except.ok (Prod.ext ?_ ?_)
  · funext i b d
    have hplace : (rank : ℕ) * Sl + i = (finProdFinEquiv (rank, i) : Fin (R * Sl)) := by
      rw [finProdFinEquiv_apply_val, Nat.mul_comm, Nat.add_comm]
    dsimp only
    rw [hplace, List.getD_eq_getElem?_getD, List.getElem?_ofFn, dif_pos (Fin.isLt _),
      Option.getD_some]
    rfl
  · funext v d
    dsimp only
    rw [foldl_add_chunks fun s v d => ∑ b, allHiddenStates hidden s b d *
        gradInput Real.exp Real.log hidden weight target g rank b s v,
      flatMap_chunkPositions (R * Sl) hchunk, zero_add, ← Fin.sum_univ_def]
    rfl

/-- The logits of all positions and ranks, by their indices. -/
noncomputable def entries (hidden : HiddenShards ℝ R Sl B H) (weight : WeightShards ℝ R V H)
    (p : (Fin B × Fin (R * Sl)) × Fin R × Fin V) : ℝ :=
  logits hidden weight p.2.1 p.1.1 p.1.2 p.2.2

/-- The gradient for the hidden states. -/
theorem hasGradient_hidden (target : Fin B → Fin (R * Sl) → Fin (R * V))
    (g : Fin B → Fin (R * Sl) → ℝ) (y : Fin R × Fin Sl × Fin B × Fin H → ℝ)
    (w : Fin R × Fin V × Fin H → ℝ) :
    HasGradient (fun y => ∑ b, ∑ s,
        g b s * logSoftmax (logitsRow (hiddenOf y) (weightOf w) b s) (target b s))
      (fun j => gradHidden (gradInput Real.exp Real.log (hiddenOf y) (weightOf w)
        (fun b s => (target b s : ℤ)) g) (weightOf w) j.1 j.2.1 j.2.2.1 j.2.2.2) y := by
  -- the logits are linear in the hidden states
  let A := fun (p : (Fin B × Fin (R * Sl)) × Fin R × Fin V) (j : Fin R × Fin Sl × Fin B × Fin H) =>
    if p.1 = (j.2.2.1, finProdFinEquiv (j.1, j.2.1)) then w (p.2.1, p.2.2, j.2.2.2) else 0
  have hA : ∀ y : Fin R × Fin Sl × Fin B × Fin H → ℝ,
      (fun p => ∑ j, A p j * y j) = entries (hiddenOf y) (weightOf w) := by
    intro y
    funext p
    obtain ⟨⟨b, s⟩, rank, v⟩ := p
    obtain ⟨⟨r, i⟩, rfl⟩ := finProdFinEquiv.surjective s
    have hplace : ((finProdFinEquiv (r, i)).divNat, (finProdFinEquiv (r, i)).modNat) = (r, i) :=
      finProdFinEquiv.symm_apply_apply (r, i)
    have hentry : entries (hiddenOf y) (weightOf w) ((b, finProdFinEquiv (r, i)), rank, v) =
        ∑ d, y (r, i, b, d) * w (rank, v, d) := by
      rw [entries, logits]
      simp only [allHiddenStates, (Prod.mk.inj hplace).1, (Prod.mk.inj hplace).2]
      rfl
    rw [hentry]
    simp only [A, Fintype.sum_prod_type, Prod.mk.injEq, EmbeddingLike.apply_eq_iff_eq, ite_mul,
      zero_mul, ite_and, Finset.sum_ite_irrel, Finset.sum_const_zero, Finset.sum_ite_eq,
      Finset.mem_univ, if_true]
    exact Finset.sum_congr rfl fun d _ => mul_comm _ _
  have hlinear := HasGradient.comp_linear (x := y) A
    (hA y ▸ hasGradient_logprobs target g (entries (hiddenOf y) (weightOf w)))
  simp only [hA] at hlinear
  have hcoeff : ∀ j : Fin R × Fin Sl × Fin B × Fin H,
      gradHidden (gradInput Real.exp Real.log (hiddenOf y) (weightOf w)
        (fun b s => (target b s : ℤ)) g) (weightOf w) j.1 j.2.1 j.2.2.1 j.2.2.2 =
      ∑ p, DistributedLogprob.backward Real.exp Real.log
        (logitsOf (entries (hiddenOf y) (weightOf w))) (fun b s => (target b s : ℤ)) g
        p.2.1 p.1.1 p.1.2 p.2.2 * A p j := by
    intro j
    rw [Fintype.sum_prod_type, Finset.sum_eq_single (j.2.2.1, finProdFinEquiv (j.1, j.2.1))
      (fun q _ hq => Finset.sum_eq_zero fun i _ => by
        rw [show A (q, i) j = 0 from if_neg hq, mul_zero]) (by simp), Fintype.sum_prod_type]
    refine Finset.sum_congr rfl fun rank _ => Finset.sum_congr rfl fun v _ => ?_
    rw [show A ((j.2.2.1, finProdFinEquiv (j.1, j.2.1)), rank, v) j = w (rank, v, j.2.2.2) from
      if_pos rfl]
    rfl
  simp only [hcoeff]
  exact hlinear

/-- The gradient for the output layer. -/
theorem hasGradient_weight (target : Fin B → Fin (R * Sl) → Fin (R * V))
    (g : Fin B → Fin (R * Sl) → ℝ) (y : Fin R × Fin Sl × Fin B × Fin H → ℝ)
    (w : Fin R × Fin V × Fin H → ℝ) :
    HasGradient (fun w => ∑ b, ∑ s,
        g b s * logSoftmax (logitsRow (hiddenOf y) (weightOf w) b s) (target b s))
      (fun j => gradWeight (hiddenOf y) (gradInput Real.exp Real.log (hiddenOf y) (weightOf w)
        (fun b s => (target b s : ℤ)) g) j.1 j.2.1 j.2.2) w := by
  -- the logits are linear in the weights
  let A := fun (p : (Fin B × Fin (R * Sl)) × Fin R × Fin V) (j : Fin R × Fin V × Fin H) =>
    if p.2 = (j.1, j.2.1) then allHiddenStates (hiddenOf y) p.1.2 p.1.1 j.2.2 else 0
  have hA : ∀ w : Fin R × Fin V × Fin H → ℝ,
      (fun p => ∑ j, A p j * w j) = entries (hiddenOf y) (weightOf w) := by
    intro w
    funext p
    obtain ⟨⟨b, s⟩, rank, v⟩ := p
    rw [entries, logits]
    simp only [A, Fintype.sum_prod_type, Prod.mk.injEq, ite_mul, zero_mul, ite_and,
      Finset.sum_ite_irrel, Finset.sum_const_zero, Finset.sum_ite_eq, Finset.mem_univ, if_true]
    rfl
  have hlinear := HasGradient.comp_linear (x := w) A
    (hA w ▸ hasGradient_logprobs target g (entries (hiddenOf y) (weightOf w)))
  simp only [hA] at hlinear
  have hcoeff : ∀ j : Fin R × Fin V × Fin H,
      gradWeight (hiddenOf y) (gradInput Real.exp Real.log (hiddenOf y) (weightOf w)
        (fun b s => (target b s : ℤ)) g) j.1 j.2.1 j.2.2 =
      ∑ p, DistributedLogprob.backward Real.exp Real.log
        (logitsOf (entries (hiddenOf y) (weightOf w))) (fun b s => (target b s : ℤ)) g
        p.2.1 p.1.1 p.1.2 p.2.2 * A p j := by
    intro j
    rw [Fintype.sum_prod_type_right, Finset.sum_eq_single (j.1, j.2.1)
      (fun q _ hq => Finset.sum_eq_zero fun i _ => by
        rw [show A (i, q) j = 0 from if_neg hq, mul_zero]) (by simp), Fintype.sum_prod_type,
      Finset.sum_comm]
    refine Finset.sum_congr rfl fun s _ => Finset.sum_congr rfl fun b _ => ?_
    rw [show A ((b, s), j.1, j.2.1) j = allHiddenStates (hiddenOf y) s b j.2.2 from if_pos rfl,
      mul_comm]
    rfl
  simp only [hcoeff]
  exact hlinear

/-- Fused with the output layer, in chunks of any size and with the sequence and the vocabulary
split over the ranks: the forward pass computes the log probabilities of the tokens over the whole
vocabulary, and the backward pass gives each rank the part of the gradient that belongs to its part
of the sequence and to its rows of the output layer. -/
theorem hiddenStatesToLogprobs_gradient (target : Fin B → Fin (R * Sl) → Fin (R * V))
    (g : Fin B → Fin (R * Sl) → ℝ) (y : Fin R × Fin Sl × Fin B × Fin H → ℝ)
    (w : Fin R × Fin V × Fin H → ℝ) {chunkSize : ℕ} (hSl : 0 < Sl) (hchunk : 0 < chunkSize) :
    forward Real.exp Real.log (hiddenOf y) (weightOf w) (fun b s => (target b s : ℤ)) chunkSize =
      .ok (fun b => List.ofFn fun s =>
        logSoftmax (logitsRow (hiddenOf y) (weightOf w) b s) (target b s)) ∧
    ∃ (gradHidden : Fin R → Fin Sl → Fin B → Fin H → ℝ) (gradWeight : Fin R → Fin V → Fin H → ℝ),
      (∀ rank, backward Real.exp Real.log (hiddenOf y) (weightOf w)
        (fun b s => (target b s : ℤ)) chunkSize g rank = .ok (gradHidden rank, gradWeight rank)) ∧
      HasGradient (fun y => ∑ b, ∑ s,
          g b s * logSoftmax (logitsRow (hiddenOf y) (weightOf w) b s) (target b s))
        (fun j => gradHidden j.1 j.2.1 j.2.2.1 j.2.2.2) y ∧
      HasGradient (fun w => ∑ b, ∑ s,
          g b s * logSoftmax (logitsRow (hiddenOf y) (weightOf w) b s) (target b s))
        (fun j => gradWeight j.1 j.2.1 j.2.2) w :=
  ⟨forward_eq _ _ target hSl hchunk, _, _, fun rank => backward_eq _ _ _ g hSl hchunk rank,
    hasGradient_hidden target g y w, hasGradient_weight target g y w⟩

/-- With all hidden states zero and two tokens. -/
theorem hiddenStatesToLogprobs_gradient_two :
    forward Real.exp Real.log (hiddenOf (0 : Fin 2 × Fin 1 × Fin 1 × Fin 1 → ℝ))
      (weightOf (0 : Fin 2 × Fin 1 × Fin 1 → ℝ)) (fun _ _ => 1) 1 =
        .ok fun _ => [-Real.log 2, -Real.log 2] := by
  have hforward := (hiddenStatesToLogprobs_gradient (fun _ _ => 1) (fun _ _ => 0)
    (0 : Fin 2 × Fin 1 × Fin 1 × Fin 1 → ℝ) (0 : Fin 2 × Fin 1 × Fin 1 → ℝ) Nat.one_pos
    Nat.one_pos).1
  simpa [logSoftmax, logitsRow, wholeRow, logits, hiddenOf, weightOf, one_add_one_eq_two,
    funext_iff] using hforward

end ChunkedDistributedHiddenStatesToLogprobs
end NemoRL.Distributed
